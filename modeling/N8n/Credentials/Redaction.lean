import N8n.Collections.Fallible
import N8n.Collections.PropertyTree

/-!
# The redaction of credentials

The values of credentials that the frontend must not see are replaced with sentinel values, and
the sentinel values that come back with an edited credential are replaced with the saved values.
See `redact`, `unredactRestoreValues` and `unredact` of
`packages/cli/src/credentials/credentials.service.ts`, and `mergeNodeProperties` of
`packages/workflow/src/node-helpers.ts`.
-/

namespace N8n.Credentials

open Collections

/-- `INodeProperties` of a credential type. A collection of a `fixedCollection` is an option with
options. -/
structure INodeProperties where
  name : List Char
  password : Bool
  noDataExpression : Bool
  doNotInherit : Bool
  options : List INodeProperties

/-- `ICredentialType`; `extendsTypes` is its `extends`. -/
structure ICredentialType where
  properties : List INodeProperties
  extendsTypes : List (List Char)

/-- What `redact` throws. -/
inductive RedactionError where
  | unrecognizedCredentialType (name : List Char)
  | maximumCallStackSizeExceeded
  | typeError

/-- `mergeNodeProperties` for one property. -/
def mergeNodeProperty (mainProperties : List INodeProperties) (property : INodeProperties) :
    List INodeProperties :=
  if property.doNotInherit then mainProperties
  else
    match mainProperties.findIdx? fun element => decide (element.name = property.name) with
    | none => mainProperties ++ [property]
    | some existingIndex => mainProperties.set existingIndex property

/-- `mergeNodeProperties(mainProperties, addProperties)`. -/
def mergeNodeProperties (mainProperties addProperties : List INodeProperties) :
    List INodeProperties :=
  addProperties.foldl mergeNodeProperty mainProperties

/-- The known credential types, for `credentialTypes.getByName`, which throws if there is none. -/
abbrev CredentialTypes := List Char → Option ICredentialType

variable (getByName : CredentialTypes)

/-- The loop body of `getExtendedProps`, with the nested call as a function. -/
def mergeExtendedProps
    (getExtendedProps : ICredentialType → Except RedactionError (List INodeProperties))
    (props : List INodeProperties) (e : List Char) :
    Except RedactionError (List INodeProperties) :=
  match getByName e with
  | none => .error (.unrecognizedCredentialType e)
  | some extendsType => do
    let extendedProps ← getExtendedProps extendsType
    .ok (mergeNodeProperties props extendedProps)

/-- `getExtendedProps(type)` with room for some nested calls on the stack. -/
def getExtendedProps : Nat → ICredentialType → Except RedactionError (List INodeProperties)
  | 0, _ => .error .maximumCallStackSizeExceeded
  | stack + 1, type => do
    let props ← type.extendsTypes.foldlM
      (mergeExtendedProps getByName fun extendsType => getExtendedProps stack extendsType) []
    .ok (mergeNodeProperties props type.properties)

/-- `CREDENTIAL_BLANKING_VALUE`. -/
def credentialBlankingValue : List Char :=
  "__n8n_BLANK_VALUE_e5362baf-c777-4d57-a609-6eaf1f9e87f6".toList

/-- `CREDENTIAL_EMPTY_VALUE`. -/
def credentialEmptyValue : List Char :=
  "__n8n_EMPTY_VALUE_7b1af746-3729-4c60-9b9b-e08eb29e58da".toList

mutual

/-- `value.toString().length > 0`. An object that has a property `toString` of its own cannot be
converted, since plain data holds no functions. -/
def toStringNonEmpty : PropertyTree → Except RedactionError Bool
  | .undefined | .null => .error .typeError
  | .boolean _ | .number _ => .ok true
  | .string text => .ok (!text.isEmpty)
  | .array items => joinNonEmpty items
  | .object entries =>
    if entries.any fun entry => decide (entry.1 = .name "toString".toList) then
      .error .typeError
    else .ok true

/-- `items.join().length > 0`: there is a comma between two items, and `null` and `undefined` are
empty. -/
def joinNonEmpty : List PropertyTree → Except RedactionError Bool
  | [] => .ok false
  | .null :: rest | .undefined :: rest => do
    let tail ← joinNonEmpty rest
    .ok (!rest.isEmpty || tail)
  | item :: rest => do
    let head ← toStringNonEmpty item
    let tail ← joinNonEmpty rest
    .ok (head || !rest.isEmpty || tail)

end

/-- The sentinel value that `redact` puts in the place of a value. -/
def sentinelFor (value : PropertyTree) : Except RedactionError PropertyTree := do
  let nonEmpty ← toStringNonEmpty value
  .ok (.string (if nonEmpty then credentialBlankingValue else credentialEmptyValue))

/-- Does the text start with `={{`? -/
def isExpressionText (text : List Char) : Bool := ['=', '{', '{'].isPrefixOf text

/-- `(value as string).startsWith('={{')`, which only a text has. -/
def startsWithExpression : PropertyTree → Except RedactionError Bool
  | .string text => .ok (isExpressionText text)
  | _ => .error .typeError

/-- Are the values under this key secrets of every credential type? -/
def isTokenKey (dataKey : PropertyKey) : Bool :=
  dataKey = .name "oauthTokenData".toList || dataKey = .name "csrfSecret".toList

/-- The loop body of `redact`: the new value of `copiedData[dataKey]`. -/
def redactEntry (properties : List INodeProperties) (dataKey : PropertyKey)
    (value : PropertyTree) : Except RedactionError PropertyTree :=
  if isTokenKey dataKey then sentinelFor value
  else
    match properties.find? fun v => decide (.name v.name = dataKey) with
    | none => .ok value
    | some prop =>
      if prop.password then do
        let isExpression ← startsWithExpression value
        if !isExpression || prop.noDataExpression then sentinelFor value else .ok value
      else .ok value

/-- The entries of `ICredentialDataDecryptedObject`. -/
abbrev Entries := List (PropertyKey × PropertyTree)

/-- The loop of `redact` over the keys of the data. -/
def redactEntries (properties : List INodeProperties) : Entries → Except RedactionError Entries
  | [] => .ok []
  | (dataKey, value) :: rest => do
    let value ← redactEntry properties dataKey value
    let rest ← redactEntries properties rest
    .ok ((dataKey, value) :: rest)

/-- `redact(data, credential)` for a credential of a type, with some room on the stack. The data
of an unknown type are returned as they are. -/
def redact (stack : Nat) (type : List Char) (data : Entries) : Except RedactionError Entries :=
  match getByName type with
  | none => .ok data
  | some credType => do
    let properties ← getExtendedProps getByName stack credType
    redactEntries properties data

/-- Is the value one of the two sentinel values? -/
def isSentinel : PropertyTree → Bool
  | .string text => text = credentialBlankingValue || text = credentialEmptyValue
  | _ => false

mutual

/-- The loop body of `unredactRestoreValues`: the new value of `unmerged[key]`, where `saved` is
`replacement[key]`. -/
def unredactRestoreValue (saved : PropertyTree) : PropertyTree → PropertyTree
  | .string text => if isSentinel (.string text) then saved else .string text
  | .array items =>
    if saved.isContainer then .array (unredactRestoreItems saved 0 items) else .array items
  | .object entries =>
    if saved.isContainer then .object (unredactRestoreValues saved entries) else .object entries
  | value => value

/-- `unredactRestoreValues(unmerged, replacement)` for the items of an array from an index on. -/
def unredactRestoreItems (replacement : PropertyTree) (index : Nat) :
    List PropertyTree → List PropertyTree
  | [] => []
  | value :: rest =>
    unredactRestoreValue (replacement.get (.index index)) value ::
      unredactRestoreItems replacement (index + 1) rest

/-- `unredactRestoreValues(unmerged, replacement)` for the entries of an object. -/
def unredactRestoreValues (replacement : PropertyTree) : Entries → Entries
  | [] => []
  | (key, value) :: rest =>
    (key, unredactRestoreValue (replacement.get key) value) ::
      unredactRestoreValues replacement rest

end

/-- `unredact(redactedData, savedData)`. -/
def unredact (redactedData savedData : Entries) : Entries :=
  unredactRestoreValues (.object savedData) redactedData

/-- Decrypted data: JSON, so that every object in it has distinct keys. -/
structure CredentialData where
  entries : Entries
  wellFormed : (PropertyTree.object entries).WellFormed

end N8n.Credentials
