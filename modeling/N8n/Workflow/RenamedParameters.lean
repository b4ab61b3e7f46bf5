import N8n.Expression.ReferenceRenaming
import N8n.Workflow.NodeParameters

/-!
# Renamed parameters

What renaming a node does to the parameters of the nodes. `RenamedValue` says it without the
recursion of the source: the value keeps its shape, expressions and code have their references
renamed, and other text stays. `renamed_parameters` shows it of `renameNodeInParameters` for
parameters without `null` in which the access patterns match nothing but references.
-/

namespace N8n

open Expression

/-- Where a value stands in the parameters of a node: as their object, as a parameter, as code or
HTML, as an element of an array in code, or in the fields of a form. -/
inductive Scope where
  | parameters (nodeType : String)
  | parameter
  | content
  | contentElement
  | formFields
  | formValues
  | formValue
  deriving DecidableEq, Repr

namespace Scope

/-- Is a text in this place an expression or code? -/
def IsExpression (scope : Scope) (text : List Char) : Prop :=
  startsWithEquals text ∨ scope = content

instance (scope : Scope) (text : List Char) : Decidable (scope.IsExpression text) :=
  inferInstanceAs (Decidable (_ ∨ _))

/-- The place of an element of an array. -/
def element : Scope → Scope
  | content => contentElement
  | contentElement => contentElement
  | formValues => formValue
  | _ => parameter

/-- The place of an entry of an object. -/
def entry (scope : Scope) (entries : INodeParameters) (name : String) : Scope :=
  match scope with
  | parameters nodeType =>
    if nodeType ∈ nodesWithRenamableContent ∧ name = "jsCode" then content
    else if nodeType ∈ nodesWithRenameableToplevelHtmlContent ∧ name = "html" then content
    else if nodeType ∈ nodesWithRenamableFormHtmlContent ∧ name = "formFields" then formFields
    else parameter
  | parameter => parameter
  | content => content
  | contentElement => contentElement
  | formFields => if name = "values" then formValues else parameter
  | formValues => parameter
  | formValue =>
    match entries.lookup "fieldType" with
    | some (.string fieldType) =>
      if fieldType = ['h', 't', 'm', 'l'] ∧ name = "html" then content else parameter
    | _ => parameter

/-- Is the place visited twice, with the parameters and again with the code? -/
def Twice (scope : Scope) : Prop := scope = content ∨ scope = contentElement

instance (scope : Scope) : Decidable scope.Twice := inferInstanceAs (Decidable (_ ∨ _))

end Scope

mutual

/-- A value with the references to one node replaced by references to another. -/
inductive RenamedValue (g : Grammar) (currentName newName : List Char) :
    Scope → NodeParameterValue → NodeParameterValue → Prop
  | null {scope} : RenamedValue g currentName newName scope .null .null
  | boolean {scope value} :
      RenamedValue g currentName newName scope (.boolean value) (.boolean value)
  | number {scope value} : RenamedValue g currentName newName scope (.number value) (.number value)
  | expression {scope text text'} : scope.IsExpression text →
      RenamedText g currentName newName text text' →
      RenamedValue g currentName newName scope (.string text) (.string text')
  | text {scope text} : ¬ scope.IsExpression text →
      RenamedValue g currentName newName scope (.string text) (.string text)
  | array {scope values values'} :
      RenamedElements g currentName newName scope.element values values' →
      RenamedValue g currentName newName scope (.array values) (.array values')
  | object {scope entries entries'} :
      RenamedEntries g currentName newName scope entries entries entries' →
      RenamedValue g currentName newName scope (.object entries) (.object entries')

/-- The elements of an array, renamed one by one. -/
inductive RenamedElements (g : Grammar) (currentName newName : List Char) :
    Scope → List NodeParameterValue → List NodeParameterValue → Prop
  | nil {scope} : RenamedElements g currentName newName scope [] []
  | cons {scope value value' rest rest'} : RenamedValue g currentName newName scope value value' →
      RenamedElements g currentName newName scope rest rest' →
      RenamedElements g currentName newName scope (value :: rest) (value' :: rest')

/-- The entries of an object, renamed one by one under their names. -/
inductive RenamedEntries (g : Grammar) (currentName newName : List Char) :
    Scope → INodeParameters → INodeParameters → INodeParameters → Prop
  | nil {scope all} : RenamedEntries g currentName newName scope all [] []
  | cons {scope all name value value' rest rest'} :
      RenamedValue g currentName newName (scope.entry all name) value value' →
      RenamedEntries g currentName newName scope all rest rest' →
      RenamedEntries g currentName newName scope all ((name, value) :: rest)
        ((name, value') :: rest')

end

/-- The access patterns find nothing in a text. -/
structure Settled (currentName newName text : List Char) : Prop where
  patterns : ∀ pattern ∈ accessPatterns,
    Text.NoMatch (pattern.replacePattern.rule currentName newName) text
  brackets : hasDotNotationBannedChar newName → dotOpening <:+: text →
    Text.NoMatch (bracketRule newName) text

/-- The references in a text can be renamed: the patterns match nothing else, and nothing at all
once they are renamed, where the patterns are applied twice. -/
def RenamableText (g : Grammar) (currentName newName : List Char) (scope : Scope)
    (text : List Char) : Prop :=
  scope.IsExpression text → OnlyReferences currentName newName g text ∧
    (scope.Twice → startsWithEquals text →
      currentName <:+: renameReferences currentName newName g text →
      Settled currentName newName (renameReferences currentName newName g text))

mutual

/-- The references in a value can be renamed. -/
def Renamable (g : Grammar) (currentName newName : List Char) (scope : Scope) :
    NodeParameterValue → Prop
  | .null => False
  | .boolean _ => True
  | .number _ => True
  | .string text => RenamableText g currentName newName scope text
  | .array values => RenamableElements g currentName newName scope.element values
  | .object entries => RenamableEntries g currentName newName scope entries entries

/-- The references in the elements of an array can be renamed. -/
def RenamableElements (g : Grammar) (currentName newName : List Char) (scope : Scope) :
    List NodeParameterValue → Prop
  | [] => True
  | value :: rest =>
    Renamable g currentName newName scope value ∧
      RenamableElements g currentName newName scope rest

/-- The references in the entries of an object can be renamed. -/
def RenamableEntries (g : Grammar) (currentName newName : List Char) (scope : Scope)
    (all : INodeParameters) : INodeParameters → Prop
  | [] => True
  | (name, value) :: rest =>
    name ≠ "__proto__" ∧ Renamable g currentName newName (scope.entry all name) value ∧
      RenamableEntries g currentName newName scope all rest

end

variable {g : Grammar} {currentName newName : List Char} {scope : Scope} {text : List Char}

/-! ## Elements and entries -/

variable {update : NodeParameterValue → NodeParameterValue} {values : List NodeParameterValue}

theorem renamed_elements
    (h : ∀ value ∈ values, RenamedValue g currentName newName scope value (update value)) :
    RenamedElements g currentName newName scope values (values.map update) := by
  induction values with
  | nil => exact .nil
  | cons value rest ih => exact .cons (h value (.head _)) (ih fun v hv => h v (.tail _ hv))

variable {entries : INodeParameters}

theorem renamed_entries {update : String × NodeParameterValue → NodeParameterValue}
    {all : INodeParameters}
    (h : ∀ entry ∈ entries, RenamedValue g currentName newName (scope.entry all entry.1) entry.2
      (update entry)) :
    RenamedEntries g currentName newName scope all entries
      (entries.map fun entry => (entry.1, update entry)) := by
  induction entries with
  | nil => exact .nil
  | cons entry rest ih => exact .cons (h entry (.head _)) (ih fun e he => h e (.tail _ he))

theorem renamable_elements (h : RenamableElements g currentName newName scope values) :
    ∀ value ∈ values, Renamable g currentName newName scope value := by
  induction values with
  | nil => exact fun v hv => absurd hv List.not_mem_nil
  | cons value rest ih =>
    obtain ⟨hvalue, hrest⟩ := h
    exact List.forall_mem_cons.mpr ⟨hvalue, ih hrest⟩

theorem renamable_entries {all : INodeParameters}
    (h : RenamableEntries g currentName newName scope all entries) :
    ∀ entry ∈ entries, entry.1 ≠ "__proto__" ∧
      Renamable g currentName newName (scope.entry all entry.1) entry.2 := by
  induction entries with
  | nil => exact fun e he => absurd he List.not_mem_nil
  | cons entry rest ih =>
    obtain ⟨hproto, hvalue, hrest⟩ := h
    exact List.forall_mem_cons.mpr ⟨⟨hproto, hvalue⟩, ih hrest⟩

theorem rename_node_in_elements_eq (values : List NodeParameterValue) :
    renameNodeInElements currentName newName values =
      values.map (renameNodeInParameterValue currentName newName false) := by
  induction values with
  | nil => rfl
  | cons value rest ih => rw [renameNodeInElements, ih, List.map_cons]

theorem rename_node_in_entries_eq {flag : Bool} (h : ∀ entry ∈ entries, entry.1 ≠ "__proto__") :
    renameNodeInEntries currentName newName flag entries = entries.map fun entry =>
      (entry.1, renameNodeInParameterValue currentName newName flag entry.2) := by
  induction entries with
  | nil => rfl
  | cons entry rest ih =>
    rw [renameNodeInEntries, if_neg (h entry (.head _)), ih fun e he => h e (.tail _ he),
      List.map_cons]

theorem update_parameter_map {name : String}
    {visit : String × NodeParameterValue → NodeParameterValue} :
    updateParameter name update (entries.map fun entry => (entry.1, visit entry)) =
      entries.map fun entry =>
        (entry.1, if entry.1 = name then update (visit entry) else visit entry) := by
  rw [updateParameter, List.map_map]
  rfl

/-! ## Text -/

theorem apply_access_patterns_of_settled
    (h : currentName <:+: text → Settled currentName newName text) :
    applyAccessPatterns text currentName newName = text := by
  rw [applyAccessPatterns]
  split
  · rename_i hincludes
    obtain ⟨hpatterns, hbrackets⟩ := h hincludes
    have hquoted : ∀ form : QuotedForm, form.access ∈ accessPatterns →
        form.access.apply currentName newName text = text := by
      intro form hform
      rw [apply_quoted]
      exact Text.replace_all_of_no_match (hpatterns _ hform)
    have hdot : dotAccess.apply currentName newName text = text := by
      have hreplace : Text.replaceAll (dotAccess.replacePattern.rule currentName newName) text =
          text := Text.replace_all_of_no_match (hpatterns _ (by simp [accessPatterns]))
      rw [AccessPattern.apply]
      split
      · rename_i hdot
        show bracketBanned (Text.replaceAll _ text) newName = text
        rw [hreplace, bracketBanned]
        split
        · rename_i hbanned
          exact Text.replace_all_of_no_match (hbrackets hbanned hdot)
        · rfl
      · rfl
    have hcall : callAccess.apply currentName newName text = text :=
      hquoted .call (by simp [accessPatterns, QuotedForm.access])
    have hnode : bracketAccess.apply currentName newName text = text :=
      hquoted .node (by simp [accessPatterns, QuotedForm.access])
    have hitems : itemsAccess.apply currentName newName text = text :=
      hquoted .items (by simp [accessPatterns, QuotedForm.access])
    rw [accessPatterns, List.foldl_cons, List.foldl_cons, List.foldl_cons, List.foldl_cons,
      List.foldl_nil, hcall, hnode, hdot, hitems]
  · rfl

theorem RenamableText.renamed (h : RenamableText g currentName newName scope text)
    (hexpression : scope.IsExpression text) :
    RenamedText g currentName newName text (applyAccessPatterns text currentName newName) :=
  renamed_text (h hexpression).1

theorem RenamableText.starts_with_equals (h : RenamableText g currentName newName scope text)
    (hequals : startsWithEquals text) :
    startsWithEquals (applyAccessPatterns text currentName newName) := by
  rw [apply_access_patterns_eq (h (.inl hequals)).1, startsWithEquals, renameReferences,
    head_text_after, pieces_text]
  exact hequals

theorem RenamableText.apply_twice (h : RenamableText g currentName newName scope text)
    (htwice : scope.Twice) (hequals : startsWithEquals text) :
    applyAccessPatterns (applyAccessPatterns text currentName newName) currentName newName =
      applyAccessPatterns text currentName newName := by
  obtain ⟨honly, hsettled⟩ := h (.inl hequals)
  rw [apply_access_patterns_eq honly]
  exact apply_access_patterns_of_settled (hsettled htwice hequals)

/-! ## Values -/

theorem renamed_string (hcontent : scope ≠ .content)
    (h : RenamableText g currentName newName scope text) :
    RenamedValue g currentName newName scope (.string text)
      (renameNodeInParameterValue currentName newName false (.string text)) := by
  rw [renameNodeInParameterValue]
  split
  · rename_i hequals
    have hexpression : scope.IsExpression text := .inl (by simpa using hequals)
    exact .expression hexpression (h.renamed hexpression)
  · rename_i hequals
    refine .text fun hexpression => ?_
    cases hexpression with
    | inl hequals' => exact hequals (.inl hequals')
    | inr hscope => exact hcontent hscope

theorem rename_node_in_string (currentName newName : List Char) (flag : Bool) (text : List Char) :
    ∃ text', renameNodeInParameterValue currentName newName flag (.string text) =
      .string text' := by
  rw [renameNodeInParameterValue]
  split
  · exact ⟨_, rfl⟩
  · exact ⟨_, rfl⟩

theorem renamed_array (h : ∀ value ∈ values, RenamedValue g currentName newName scope.element value
      (renameNodeInParameterValue currentName newName false value)) :
    RenamedValue g currentName newName scope (.array values)
      (renameNodeInParameterValue currentName newName false (.array values)) := by
  rw [renameNodeInParameterValue, rename_node_in_elements_eq]
  exact .array (renamed_elements h)

theorem renamed_object (hproto : ∀ entry ∈ entries, entry.1 ≠ "__proto__")
    (h : ∀ entry ∈ entries, RenamedValue g currentName newName (scope.entry entries entry.1)
      entry.2 (renameNodeInParameterValue currentName newName false entry.2)) :
    RenamedValue g currentName newName scope (.object entries)
      (renameNodeInParameterValue currentName newName false (.object entries)) := by
  rw [renameNodeInParameterValue, rename_node_in_entries_eq hproto]
  exact .object (renamed_entries h)

theorem renamed_parameter (value : NodeParameterValue)
    (h : Renamable g currentName newName .parameter value) :
    RenamedValue g currentName newName .parameter value
      (renameNodeInParameterValue currentName newName false value) := by
  induction value using NodeParameterValue.induction with
  | null => exact h.elim
  | boolean value => exact .boolean
  | number value => exact .number
  | string text => exact renamed_string (by decide) h
  | array values ih =>
    exact renamed_array fun value hvalue => ih value hvalue (renamable_elements h value hvalue)
  | object entries ih =>
    have hentries := renamable_entries h
    exact renamed_object (fun entry he => (hentries entry he).1)
      fun entry he => ih entry he (hentries entry he).2

theorem renamed_content (htwice : scope.Twice) (value : NodeParameterValue)
    (h : Renamable g currentName newName scope value) :
    RenamedValue g currentName newName scope value
      (renameNodeInParameterValue currentName newName (scope = .content)
        (renameNodeInParameterValue currentName newName false value)) := by
  induction value using NodeParameterValue.induction generalizing scope with
  | null => exact h.elim
  | boolean value => exact .boolean
  | number value => exact .number
  | string text =>
    have htext : RenamableText g currentName newName scope text := h
    by_cases hequals : startsWithEquals text
    · have hfirst : renameNodeInParameterValue currentName newName false (.string text) =
          .string (applyAccessPatterns text currentName newName) := by
        rw [renameNodeInParameterValue, if_pos (.inl hequals)]
      rw [hfirst, renameNodeInParameterValue, if_pos (.inl (htext.starts_with_equals hequals)),
        htext.apply_twice htwice hequals]
      exact .expression (.inl hequals) (htext.renamed (.inl hequals))
    · have hfirst : renameNodeInParameterValue currentName newName false (.string text) =
          .string text := by
        rw [renameNodeInParameterValue, if_neg (by simpa using hequals)]
      rw [hfirst, renameNodeInParameterValue]
      by_cases hscope : scope = .content
      · rw [if_pos (.inr (decide_eq_true hscope))]
        exact .expression (.inr hscope) (htext.renamed (.inr hscope))
      · rw [if_neg (by simp [hequals, hscope])]
        exact .text fun hexpression => hexpression.elim hequals hscope
  | array values ih =>
    have helement : scope.element = .contentElement := by
      cases htwice with
      | inl hcontent => rw [hcontent]; rfl
      | inr helement => rw [helement]; rfl
    have helements := renamable_elements h
    rw [renameNodeInParameterValue, rename_node_in_elements_eq, renameNodeInParameterValue,
      rename_node_in_elements_eq, List.map_map]
    refine .array (renamed_elements fun value hvalue => ?_)
    have hvalue' := helements value hvalue
    rw [helement] at hvalue' ⊢
    exact ih value hvalue (.inr rfl) hvalue'
  | object entries ih =>
    have hentries := renamable_entries h
    have hproto : ∀ entry ∈ entries, entry.1 ≠ "__proto__" :=
      fun entry he => (hentries entry he).1
    have hentry : ∀ name, scope.entry entries name = scope := by
      intro name
      cases htwice with
      | inl hcontent => rw [hcontent]; rfl
      | inr helement => rw [helement]; rfl
    rw [renameNodeInParameterValue, rename_node_in_entries_eq hproto, renameNodeInParameterValue,
      rename_node_in_entries_eq, List.map_map]
    · refine .object (renamed_entries fun entry he => ?_)
      have hvalue := (hentries entry he).2
      rw [hentry] at hvalue ⊢
      exact ih entry he htwice hvalue
    · intro entry hentry
      obtain ⟨entry', he, rfl⟩ := List.mem_map.mp hentry
      exact hproto entry' he

/-! ## Fields of a form -/

/-- Is the object a form field that holds HTML? -/
def IsHtmlField (formFieldValue : INodeParameters) : Prop :=
  formFieldValue.lookup "fieldType" = some (.string ['h', 't', 'm', 'l'])

theorem entry_of_html_field (h : IsHtmlField entries) (name : String) :
    Scope.formValue.entry entries name = if name = "html" then .content else .parameter := by
  unfold IsHtmlField at h
  simp [Scope.entry, h]

theorem entry_of_other_field (h : ¬ IsHtmlField entries) (name : String) :
    Scope.formValue.entry entries name = .parameter := by
  rw [Scope.entry]
  split
  · rename_i fieldType hlookup
    rw [if_neg]
    intro hhtml
    rw [hhtml.1] at hlookup
    exact h hlookup
  · rfl

theorem rename_html_field {renameField : NodeParameterValue → NodeParameterValue}
    (h : IsHtmlField entries) :
    renameFormField renameField (.object entries) =
      .object (updateParameter "html" renameField entries) := by
  unfold IsHtmlField at h
  simp [renameFormField, h]

theorem rename_other_field {renameField : NodeParameterValue → NodeParameterValue}
    (h : ¬ IsHtmlField entries) :
    renameFormField renameField (.object entries) = .object entries := by
  rw [renameFormField]
  split
  · rename_i fieldType hlookup
    rw [if_neg]
    intro hhtml
    rw [hhtml] at hlookup
    exact h hlookup
  · rfl

theorem lookup_visited {visit : NodeParameterValue → NodeParameterValue} (name : String)
    (entries : INodeParameters) :
    (entries.map fun entry => (entry.1, visit entry.2)).lookup name =
      (entries.lookup name).map visit := by
  induction entries with
  | nil => rfl
  | cons entry rest ih =>
    rw [List.map_cons, List.lookup_cons, List.lookup_cons, ih]
    split
    · rfl
    · rfl

theorem html_field_of_visited
    (h : RenamableEntries g currentName newName .formValue entries entries)
    (hvisited : IsHtmlField (entries.map fun entry =>
      (entry.1, renameNodeInParameterValue currentName newName false entry.2))) :
    IsHtmlField entries := by
  by_contra hother
  unfold IsHtmlField at hvisited
  rw [lookup_visited] at hvisited
  obtain ⟨value, hlookup, hvalue⟩ := Option.map_eq_some_iff.mp hvisited
  obtain ⟨before, after, heq, -⟩ := List.lookup_eq_some_iff.mp hlookup
  have hmem : ("fieldType", value) ∈ entries := by
    rw [heq]
    simp
  have hrenamable := (renamable_entries h _ hmem).2
  rw [entry_of_other_field hother] at hrenamable
  cases value with
  | null => cases hvalue
  | boolean value => cases hvalue
  | number value => cases hvalue
  | array values => cases hvalue
  | object entries => cases hvalue
  | string text =>
    rw [renameNodeInParameterValue] at hvalue
    split at hvalue
    · rename_i hequals
      have hequals : startsWithEquals text := by simpa using hequals
      have hstays := RenamableText.starts_with_equals hrenamable hequals
      rw [NodeParameterValue.string.inj hvalue] at hstays
      cases hstays
    · rw [hvalue] at hlookup
      exact hother hlookup

theorem html_field_visited (h : IsHtmlField entries) :
    IsHtmlField (entries.map fun entry =>
      (entry.1, renameNodeInParameterValue currentName newName false entry.2)) := by
  unfold IsHtmlField at h ⊢
  rw [lookup_visited, h]
  rfl

theorem renamed_form_value (value : NodeParameterValue)
    (h : Renamable g currentName newName .formValue value) :
    RenamedValue g currentName newName .formValue value
      (renameFormField (renameNodeInParameterValue currentName newName true)
        (renameNodeInParameterValue currentName newName false value)) := by
  cases value with
  | null => exact h.elim
  | boolean value => exact .boolean
  | number value => exact .number
  | string text =>
    have hrenamed : RenamedValue g currentName newName .formValue (.string text) _ :=
      renamed_string (by decide) h
    obtain ⟨text', htext'⟩ := rename_node_in_string currentName newName false text
    rw [htext'] at hrenamed ⊢
    exact hrenamed
  | array values =>
    exact renamed_array fun value hvalue =>
      renamed_parameter value (renamable_elements h value hvalue)
  | object entries =>
    have hentries := renamable_entries h
    have hproto : ∀ entry ∈ entries, entry.1 ≠ "__proto__" :=
      fun entry he => (hentries entry he).1
    rw [renameNodeInParameterValue, rename_node_in_entries_eq hproto]
    by_cases hhtml : IsHtmlField entries
    · rw [rename_html_field (html_field_visited hhtml), update_parameter_map]
      refine .object (renamed_entries fun entry he => ?_)
      have hvalue := (hentries entry he).2
      rw [entry_of_html_field hhtml] at hvalue ⊢
      split
      · rename_i hname
        rw [if_pos hname] at hvalue
        exact renamed_content (.inl rfl) entry.2 hvalue
      · rename_i hname
        rw [if_neg hname] at hvalue
        exact renamed_parameter entry.2 hvalue
    · rw [rename_other_field fun hvisited => hhtml (html_field_of_visited h hvisited)]
      refine .object (renamed_entries fun entry he => ?_)
      have hvalue := (hentries entry he).2
      rw [entry_of_other_field hhtml] at hvalue ⊢
      exact renamed_parameter entry.2 hvalue

theorem renamed_form_values (value : NodeParameterValue)
    (h : Renamable g currentName newName .formValues value) :
    RenamedValue g currentName newName .formValues value
      (renameFormValues (renameNodeInParameterValue currentName newName true)
        (renameNodeInParameterValue currentName newName false value)) := by
  cases value with
  | null => exact h.elim
  | boolean value => exact .boolean
  | number value => exact .number
  | string text =>
    have hrenamed : RenamedValue g currentName newName .formValues (.string text) _ :=
      renamed_string (by decide) h
    obtain ⟨text', htext'⟩ := rename_node_in_string currentName newName false text
    rw [htext'] at hrenamed ⊢
    exact hrenamed
  | array values =>
    rw [renameNodeInParameterValue, rename_node_in_elements_eq, renameFormValues, List.map_map]
    exact .array (renamed_elements fun value hvalue =>
      renamed_form_value value (renamable_elements h value hvalue))
  | object entries =>
    have hentries := renamable_entries h
    exact renamed_object (fun entry he => (hentries entry he).1)
      fun entry he => renamed_parameter entry.2 (hentries entry he).2

theorem renamed_form_fields (value : NodeParameterValue)
    (h : Renamable g currentName newName .formFields value) :
    RenamedValue g currentName newName .formFields value
      (renameFormFieldValues (renameNodeInParameterValue currentName newName true)
        (renameNodeInParameterValue currentName newName false value)) := by
  cases value with
  | null => exact h.elim
  | boolean value => exact .boolean
  | number value => exact .number
  | string text =>
    have hrenamed : RenamedValue g currentName newName .formFields (.string text) _ :=
      renamed_string (by decide) h
    obtain ⟨text', htext'⟩ := rename_node_in_string currentName newName false text
    rw [htext'] at hrenamed ⊢
    exact hrenamed
  | array values =>
    exact renamed_array fun value hvalue =>
      renamed_parameter value (renamable_elements h value hvalue)
  | object entries =>
    have hentries := renamable_entries h
    have hproto : ∀ entry ∈ entries, entry.1 ≠ "__proto__" :=
      fun entry he => (hentries entry he).1
    rw [renameNodeInParameterValue, rename_node_in_entries_eq hproto, renameFormFieldValues,
      update_parameter_map]
    refine .object (renamed_entries fun entry he => ?_)
    have hvalue := (hentries entry he).2
    rw [Scope.entry] at hvalue ⊢
    by_cases hname : entry.1 = "values"
    · rw [if_pos hname] at hvalue ⊢
      rw [if_pos hname]
      exact renamed_form_values entry.2 hvalue
    · rw [if_neg hname] at hvalue ⊢
      rw [if_neg hname]
      exact renamed_parameter entry.2 hvalue

/-! ## Parameters of a node -/

/-- Visit a parameter again if the type of its node says so. -/
def visitAgain (nodeType : String) (nodeTypes : List String) (name : String)
    (update : NodeParameterValue → NodeParameterValue)
    (visit : String × NodeParameterValue → NodeParameterValue)
    (entry : String × NodeParameterValue) : NodeParameterValue :=
  if nodeType ∈ nodeTypes ∧ entry.1 = name then update (visit entry) else visit entry

variable {nodeType : String}

theorem update_parameter_of_type {name : String} {nodeTypes : List String}
    {visit : String × NodeParameterValue → NodeParameterValue} :
    (if nodeType ∈ nodeTypes then
        updateParameter name update (entries.map fun entry => (entry.1, visit entry))
      else entries.map fun entry => (entry.1, visit entry)) =
      entries.map fun entry =>
        (entry.1, visitAgain nodeType nodeTypes name update visit entry) := by
  unfold visitAgain
  split
  · rename_i htype
    rw [update_parameter_map]
    simp only [htype, true_and]
  · rename_i htype
    simp only [htype, false_and, if_false]

/-- What `renameNode` makes of one parameter of a node. -/
def renameNodeInParameter (currentName newName : List Char) (nodeType : String) :
    String × NodeParameterValue → NodeParameterValue :=
  visitAgain nodeType nodesWithRenamableFormHtmlContent "formFields"
    (renameFormFieldValues (renameNodeInParameterValue currentName newName true))
    (visitAgain nodeType nodesWithRenameableToplevelHtmlContent "html"
      (renameNodeInParameterValue currentName newName true)
      (visitAgain nodeType nodesWithRenamableContent "jsCode"
        (renameNodeInParameterValue currentName newName true)
        fun entry => renameNodeInParameterValue currentName newName false entry.2))

theorem rename_node_in_parameters_eq {parameters : INodeParameters}
    (h : ∀ entry ∈ parameters, entry.1 ≠ "__proto__") :
    renameNodeInParameters currentName newName nodeType parameters = parameters.map fun entry =>
      (entry.1, renameNodeInParameter currentName newName nodeType entry) := by
  unfold renameNodeInParameters renameFormFields
  simp only [rename_node_in_entries_eq h, update_parameter_of_type]
  rfl

theorem renamed_parameters {parameters : INodeParameters}
    (h : Renamable g currentName newName (.parameters nodeType) (.object parameters)) :
    RenamedValue g currentName newName (.parameters nodeType) (.object parameters)
      (.object (renameNodeInParameters currentName newName nodeType parameters)) := by
  have hentries := renamable_entries h
  rw [rename_node_in_parameters_eq fun entry he => (hentries entry he).1]
  refine .object (renamed_entries fun entry he => ?_)
  have hvalue := (hentries entry he).2
  rw [Scope.entry] at hvalue ⊢
  unfold renameNodeInParameter visitAgain
  by_cases hcode : nodeType ∈ nodesWithRenamableContent ∧ entry.1 = "jsCode"
  · have hhtml : ¬ (nodeType ∈ nodesWithRenameableToplevelHtmlContent ∧ entry.1 = "html") := by
      rw [hcode.2]
      simp
    have hform : ¬ (nodeType ∈ nodesWithRenamableFormHtmlContent ∧ entry.1 = "formFields") := by
      rw [hcode.2]
      simp
    rw [if_pos hcode] at hvalue ⊢
    rw [if_neg hform, if_neg hhtml, if_pos hcode]
    exact renamed_content (.inl rfl) entry.2 hvalue
  rw [if_neg hcode] at hvalue ⊢
  rw [if_neg hcode]
  by_cases hhtml : nodeType ∈ nodesWithRenameableToplevelHtmlContent ∧ entry.1 = "html"
  · have hform : ¬ (nodeType ∈ nodesWithRenamableFormHtmlContent ∧ entry.1 = "formFields") := by
      rw [hhtml.2]
      simp
    rw [if_pos hhtml] at hvalue ⊢
    rw [if_neg hform, if_pos hhtml]
    exact renamed_content (.inl rfl) entry.2 hvalue
  rw [if_neg hhtml] at hvalue ⊢
  rw [if_neg hhtml]
  by_cases hform : nodeType ∈ nodesWithRenamableFormHtmlContent ∧ entry.1 = "formFields"
  · rw [if_pos hform] at hvalue ⊢
    rw [if_pos hform]
    exact renamed_form_fields entry.2 hvalue
  rw [if_neg hform] at hvalue ⊢
  rw [if_neg hform]
  exact renamed_parameter entry.2 hvalue

end N8n
