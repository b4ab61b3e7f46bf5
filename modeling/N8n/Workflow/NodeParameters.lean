import N8n.Expression.AccessPatterns

/-!
# Node parameters

The values of node parameters, and how a node is renamed in them: in every text that starts with
an equals sign, which makes it an expression, and in all text of the parameters that hold code or
HTML for some types of nodes. See `renameNodeInParameterValue` and `renameNode` of
`packages/workflow/src/workflow.ts`, and
`packages/workflow/src/node-parameters/rename-node-utils.ts`.
-/

namespace N8n

open Expression

/-- A value of a node parameter. The entries of an object have distinct names; a property that is
undefined is no entry. -/
inductive NodeParameterValue where
  | null
  | boolean (value : Bool)
  | number (value : Rat)
  | string (text : List Char)
  | array (values : List NodeParameterValue)
  | object (entries : List (String × NodeParameterValue))

namespace NodeParameterValue

theorem induction {motive : NodeParameterValue → Prop} (null : motive .null)
    (boolean : ∀ value, motive (.boolean value)) (number : ∀ value, motive (.number value))
    (string : ∀ text, motive (.string text))
    (array : ∀ values, (∀ value ∈ values, motive value) → motive (.array values))
    (object : ∀ entries, (∀ entry ∈ entries, motive entry.2) → motive (.object entries))
    (value : NodeParameterValue) : motive value :=
  @NodeParameterValue.rec motive (fun values => ∀ value ∈ values, motive value)
    (fun entries => ∀ entry ∈ entries, motive entry.2) (fun entry => motive entry.2)
    null boolean number string array object
    (fun _ hvalue => absurd hvalue List.not_mem_nil)
    (fun _ _ hhead htail => List.forall_mem_cons.mpr ⟨hhead, htail⟩)
    (fun _ hentry => absurd hentry List.not_mem_nil)
    (fun _ _ hhead htail => List.forall_mem_cons.mpr ⟨hhead, htail⟩)
    (fun _ _ hvalue => hvalue) value

end NodeParameterValue

/-- The parameters of a node by name. -/
abbrev INodeParameters := List (String × NodeParameterValue)

/-- Does the text start with an equals sign? -/
def startsWithEquals (text : List Char) : Bool := text.head? = some '='

variable (currentName newName : List Char)

mutual

/-- `renameNodeInParameterValue(parameterValue, currentName, newName, { hasRenamableContent })`.
It makes an empty object of `null`, and assigning a property `__proto__` to the new object does
not make an entry. -/
def renameNodeInParameterValue (hasRenamableContent : Bool) :
    NodeParameterValue → NodeParameterValue
  | .null => .object []
  | .boolean value => .boolean value
  | .number value => .number value
  | .string text =>
    if startsWithEquals text ∨ hasRenamableContent then
      .string (applyAccessPatterns text currentName newName)
    else .string text
  | .array values => .array (renameNodeInElements values)
  | .object entries => .object (renameNodeInEntries hasRenamableContent entries)

/-- `renameNodeInParameterValue` for the elements of an array, which do not inherit the flag. -/
def renameNodeInElements : List NodeParameterValue → List NodeParameterValue
  | [] => []
  | value :: rest => renameNodeInParameterValue false value :: renameNodeInElements rest

/-- `renameNodeInParameterValue` for the properties of an object. -/
def renameNodeInEntries (hasRenamableContent : Bool) : INodeParameters → INodeParameters
  | [] => []
  | (parameterName, value) :: rest =>
    if parameterName = "__proto__" then renameNodeInEntries hasRenamableContent rest
    else (parameterName, renameNodeInParameterValue hasRenamableContent value) ::
      renameNodeInEntries hasRenamableContent rest

end

/-- `parameters[name] = update(parameters[name])`. -/
def updateParameter (name : String) (update : NodeParameterValue → NodeParameterValue)
    (parameters : INodeParameters) : INodeParameters :=
  parameters.map fun entry => (entry.1, if entry.1 = name then update entry.2 else entry.2)

/-- One round of the loop of `renameFormFields`. -/
def renameFormField (renameField : NodeParameterValue → NodeParameterValue) :
    NodeParameterValue → NodeParameterValue
  | .object formFieldValue =>
    match formFieldValue.lookup "fieldType" with
    | some (.string fieldType) =>
      if fieldType = ['h', 't', 'm', 'l'] then
        .object (updateParameter "html" renameField formFieldValue)
      else .object formFieldValue
    | _ => .object formFieldValue
  | formFieldValue => formFieldValue

/-- The loop of `renameFormFields` over the form fields, if they are an array. -/
def renameFormValues (renameField : NodeParameterValue → NodeParameterValue) :
    NodeParameterValue → NodeParameterValue
  | .array values => .array (values.map (renameFormField renameField))
  | values => values

/-- `renameFormFields` on the value of `formFields`. -/
def renameFormFieldValues (renameField : NodeParameterValue → NodeParameterValue) :
    NodeParameterValue → NodeParameterValue
  | .object formFields =>
    .object (updateParameter "values" (renameFormValues renameField) formFields)
  | formFields => formFields

/-- `renameFormFields(node, renameField)`. -/
def renameFormFields (renameField : NodeParameterValue → NodeParameterValue)
    (parameters : INodeParameters) : INodeParameters :=
  updateParameter "formFields" (renameFormFieldValues renameField) parameters

/-- `NODES_WITH_RENAMABLE_CONTENT`. -/
def nodesWithRenamableContent : List String :=
  ["n8n-nodes-base.code", "n8n-nodes-base.function", "n8n-nodes-base.functionItem",
    "n8n-nodes-base.aiTransform"]

/-- `NODES_WITH_RENAMEABLE_TOPLEVEL_HTML_CONTENT`. -/
def nodesWithRenameableToplevelHtmlContent : List String :=
  ["n8n-nodes-base.mailgun", "n8n-nodes-base.html"]

/-- `NODES_WITH_RENAMABLE_FORM_HTML_CONTENT`. -/
def nodesWithRenamableFormHtmlContent : List String := ["n8n-nodes-base.form"]

/-- How `renameNode` updates the parameters of a node. -/
def renameNodeInParameters (nodeType : String) (parameters : INodeParameters) : INodeParameters :=
  let parameters := renameNodeInEntries currentName newName false parameters
  let parameters :=
    if nodeType ∈ nodesWithRenamableContent then
      updateParameter "jsCode" (renameNodeInParameterValue currentName newName true) parameters
    else parameters
  let parameters :=
    if nodeType ∈ nodesWithRenameableToplevelHtmlContent then
      updateParameter "html" (renameNodeInParameterValue currentName newName true) parameters
    else parameters
  if nodeType ∈ nodesWithRenamableFormHtmlContent then
    renameFormFields (renameNodeInParameterValue currentName newName true) parameters
  else parameters

end N8n
