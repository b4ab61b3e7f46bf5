import N8n.Collections.KeyedList
import N8n.Credentials.Redaction

/-!
# Safe and reversible redaction

A redacted credential holds no secret, unredacting it yields the saved data again, and in an
edited copy exactly the sentinel values become the saved values at their paths. The redaction
looks at the entries of the data and at one property for each of them only: this is enough when
no other property and no option of a property makes a secret of what the entry holds.
-/

namespace N8n.Credentials

open Collections

variable (getByName : CredentialTypes)

/-- The last property of this name that other credential types inherit. -/
def lastInheritable (properties : List INodeProperties) (name : List Char) :
    Option INodeProperties :=
  properties.reverse.find? fun property =>
    !property.doNotInherit && decide (property.name = name)

/-- The property of this name that a type hands on: its own one, or that of the last type it
extends that has one. -/
def effectiveProperty : Nat → ICredentialType → List Char → Option INodeProperties
  | 0, _, _ => none
  | stack + 1, type, name =>
    (lastInheritable type.properties name).or
      (type.extendsTypes.reverse.findSome? fun e =>
        (getByName e).bind fun extendsType => effectiveProperty stack extendsType name)

/-- The properties of this name that a type has: its own ones, or else the inherited one. -/
def declaredProperties (stack : Nat) (type : ICredentialType) (name : List Char) :
    List INodeProperties :=
  match type.properties.filter fun property => decide (property.name = name) with
  | [] => (effectiveProperty getByName stack { type with properties := [] } name).toList
  | own => own

/-- Is the value an expression, which is no secret where expressions are allowed? -/
def isExpression (property : INodeProperties) : PropertyTree → Bool
  | .string text => isExpressionText text && !property.noDataExpression
  | _ => false

/-- `PasswordValue property value secret`: in the value of a property, at any depth, this is the
value of a password. -/
inductive PasswordValue : INodeProperties → PropertyTree → PropertyTree → Prop
  | own (property : INodeProperties) (value : PropertyTree) (hpassword : property.password = true)
      (hvalue : isExpression property value = false) : PasswordValue property value value
  | option (property option : INodeProperties) (entries : Entries) (value secret : PropertyTree)
      (hoption : option ∈ property.options) (hvalue : (.name option.name, value) ∈ entries)
      (hsecret : PasswordValue option value secret) :
      PasswordValue property (.object entries) secret
  | item (property : INodeProperties) (items : List PropertyTree) (value secret : PropertyTree)
      (hvalue : value ∈ items) (hsecret : PasswordValue property value secret) :
      PasswordValue property (.array items) secret

/-- `Secret dataKey value secret`: in the entry of this key, this is a secret of the type. -/
inductive Secret (stack : Nat) (type : ICredentialType) :
    PropertyKey → PropertyTree → PropertyTree → Prop
  | token (dataKey : PropertyKey) (value : PropertyTree) (hkey : isTokenKey dataKey = true) :
      Secret stack type dataKey value value
  | password (property : INodeProperties) (name : List Char) (value secret : PropertyTree)
      (hproperty : property ∈ declaredProperties getByName stack type name)
      (hsecret : PasswordValue property value secret) :
      Secret stack type (.name name) value secret

/-- All secrets in the data are sentinel values. -/
def NoSecrets (stack : Nat) (type : ICredentialType) (data : Entries) : Prop :=
  ∀ entry ∈ data, ∀ secret, Secret getByName stack type entry.1 entry.2 secret →
    isSentinel secret = true

/-- The edited value with every sentinel value replaced by the saved value at its path. -/
def restored (saved value : PropertyTree) : PropertyTree :=
  value.mapLeaves fun path leaf => if isSentinel leaf then saved.valueAt path else leaf

/-- Redacting the data of a credential of this type succeeds and leaves no secret, unredacting
the result yields the data, and unredacting an edited copy restores it. -/
def SafeAndReversible (stack : Nat) (name : List Char) (type : ICredentialType)
    (data edited : CredentialData) : Prop :=
  ∃ redacted, redact getByName stack name data.entries = .ok redacted ∧
    NoSecrets getByName stack type redacted ∧
    unredact redacted data.entries = data.entries ∧
    PropertyTree.object (unredact edited.entries data.entries) =
      restored (.object data.entries) (.object edited.entries)

/-- All types that the type extends are known, and there is room on the stack for them. -/
def Resolves : Nat → ICredentialType → Prop
  | 0, _ => False
  | stack + 1, type =>
    ∀ e ∈ type.extendsTypes, ∃ extendsType, getByName e = some extendsType ∧
      Resolves stack extendsType

/-- The property that the redaction finds for a key. -/
def propertyFor (stack : Nat) (type : ICredentialType) : PropertyKey → Option INodeProperties
  | .name name => effectiveProperty getByName stack type name
  | .index _ => none

/-- The entry is one that the redaction replaces: a token, or a password and no expression. -/
def Replaced (stack : Nat) (type : ICredentialType) (dataKey : PropertyKey)
    (value : PropertyTree) : Prop :=
  isTokenKey dataKey = true ∨
    ∃ property, propertyFor getByName stack type dataKey = some property ∧
      property.password = true ∧ isExpression property value = false

/-- What the redaction relies on: the types are known, tokens can be converted to texts,
passwords are texts, and an entry that is not replaced as a whole holds no secret. -/
structure Redactable (stack : Nat) (type : ICredentialType) (data : Entries) : Prop where
  resolves : Resolves getByName stack type
  tokens : ∀ entry ∈ data, isTokenKey entry.1 = true →
    ∃ nonEmpty, toStringNonEmpty entry.2 = .ok nonEmpty
  passwords : ∀ entry ∈ data, isTokenKey entry.1 = false →
    ∀ property, propertyFor getByName stack type entry.1 = some property →
      property.password = true → ∃ text, entry.2 = .string text
  plain : ∀ entry ∈ data, ¬ Replaced getByName stack type entry.1 entry.2 →
    ∀ secret, Secret getByName stack type entry.1 entry.2 secret → isSentinel secret = true

/-- Every sentinel value of the edited data is in an array or object that the saved data have
too. -/
def Covered (saved edited : PropertyTree) : Prop :=
  ∀ path key, isSentinel (edited.valueAt (path ++ [key])) = true →
    (saved.valueAt path).isContainer = true

/-! ## The merged properties -/

theorem find?_mergeNodeProperty (mainProperties : List INodeProperties)
    (property : INodeProperties) (name : List Char) :
    (mergeNodeProperty mainProperties property).find? (fun v => decide (v.name = name)) =
      if property.doNotInherit = false ∧ property.name = name then some property
      else mainProperties.find? fun v => decide (v.name = name) := by
  unfold mergeNodeProperty
  split
  · next hinherit => simp [hinherit]
  · next hinherit =>
      have hinherit : property.doNotInherit = false := by simpa using hinherit
      induction mainProperties with
      | nil => by_cases hname : property.name = name <;> simp [hinherit, hname]
      | cons head rest ih =>
        rw [List.findIdx?_cons]
        by_cases hhead : head.name = property.name
        · by_cases hname : property.name = name
          · simp [hhead, hinherit, hname]
          · simp [hhead, hname]
        · simp only [hhead, decide_false, Bool.false_eq_true, if_false]
          by_cases hheadName : head.name = name
          · have hne : property.name ≠ name := fun h => hhead (hheadName.trans h.symm)
            cases hindex : rest.findIdx? fun element => decide (element.name = property.name) <;>
              simp [hheadName, hne]
          · cases hindex : rest.findIdx? fun element => decide (element.name = property.name) with
            | none => simpa [hindex, hheadName] using ih
            | some i => simpa [hindex, hheadName] using ih

theorem lastInheritable_cons (property : INodeProperties) (rest : List INodeProperties)
    (name : List Char) :
    lastInheritable (property :: rest) name =
      (lastInheritable rest name).or
        (if property.doNotInherit = false ∧ property.name = name then some property else none) := by
  simp only [lastInheritable, List.reverse_cons, List.find?_append]
  congr 1
  by_cases hinherit : property.doNotInherit = false <;> by_cases hname : property.name = name <;>
    simp [hinherit, hname]

theorem find?_mergeNodeProperties (addProperties mainProperties : List INodeProperties)
    (name : List Char) :
    (mergeNodeProperties mainProperties addProperties).find? (fun v => decide (v.name = name)) =
      (lastInheritable addProperties name).or
        (mainProperties.find? fun v => decide (v.name = name)) := by
  induction addProperties generalizing mainProperties with
  | nil => rfl
  | cons property rest ih =>
    rw [mergeNodeProperties, List.foldl_cons, ← mergeNodeProperties, ih, lastInheritable_cons,
      find?_mergeNodeProperty]
    split <;> simp

/-- Properties that were merged: each name once, and all of them inheritable. -/
def Merged (properties : List INodeProperties) : Prop :=
  (properties.map INodeProperties.name).Nodup ∧ ∀ p ∈ properties, p.doNotInherit = false

theorem Merged.mergeNodeProperty {mainProperties : List INodeProperties}
    (h : Merged mainProperties) (property : INodeProperties) :
    Merged (mergeNodeProperty mainProperties property) := by
  unfold Credentials.mergeNodeProperty
  split
  · exact h
  · next hinherit =>
      have hinherit : property.doNotInherit = false := by simpa using hinherit
      split
      · next hnone =>
          rw [List.findIdx?_eq_none_iff] at hnone
          refine ⟨?_, fun p hp => ?_⟩
          · simp only [List.map_append, List.map_cons, List.map_nil, List.nodup_append,
              List.nodup_singleton, List.mem_map, List.mem_singleton]
            refine ⟨h.1, trivial, ?_⟩
            rintro name ⟨p, hp, rfl⟩ _ rfl heq
            simpa [heq] using hnone p hp
          · rcases List.mem_append.mp hp with hp | hp
            · exact h.2 p hp
            · rw [List.mem_singleton.mp hp, hinherit]
      · next i hsome =>
          obtain ⟨hlt, hname, -⟩ := List.findIdx?_eq_some_iff_getElem.mp hsome
          refine ⟨?_, fun p hp => ?_⟩
          · have hkey : property.name = mainProperties[i].name := (of_decide_eq_true hname).symm
            rw [map_set_of_key (List.getElem?_eq_getElem hlt) hkey]
            exact h.1
          · rcases List.mem_or_eq_of_mem_set hp with hp | rfl
            · exact h.2 p hp
            · exact hinherit

theorem Merged.mergeNodeProperties {mainProperties : List INodeProperties}
    (h : Merged mainProperties) (addProperties : List INodeProperties) :
    Merged (mergeNodeProperties mainProperties addProperties) := by
  induction addProperties generalizing mainProperties with
  | nil => exact h
  | cons property rest ih => exact ih (h.mergeNodeProperty property)

variable {properties : List INodeProperties}

theorem Merged.lastInheritable_eq (h : Merged properties) (name : List Char) :
    lastInheritable properties name = properties.find? fun v => decide (v.name = name) := by
  induction properties with
  | nil => rfl
  | cons property rest ih =>
    obtain ⟨hfresh, hnodup⟩ := List.nodup_cons.mp h.1
    rw [lastInheritable_cons, ih ⟨hnodup, fun p hp => h.2 p (by simp [hp])⟩]
    have hinherit := h.2 property (by simp)
    by_cases hname : property.name = name
    · have hnone : (rest.find? fun v => decide (v.name = name)) = none := by
        rw [List.find?_eq_none]
        intro v hv hvname
        exact hfresh (List.mem_map.mpr ⟨v, hv, (of_decide_eq_true hvname).trans hname.symm⟩)
      simp [hinherit, hname, hnone]
    · simp [hname]

variable {getByName}

theorem mergeExtendedProps_eq_ok
    {collect : ICredentialType → Except RedactionError (List INodeProperties)}
    {props props' : List INodeProperties} {e : List Char} :
    mergeExtendedProps getByName collect props e = .ok props' ↔
      ∃ extendsType extendedProps, getByName e = some extendsType ∧
        collect extendsType = .ok extendedProps ∧
        props' = mergeNodeProperties props extendedProps := by
  unfold mergeExtendedProps
  cases getByName e with
  | none => simp
  | some extendsType =>
    constructor
    · intro h
      obtain ⟨extendedProps, hextended, h⟩ := bind_eq_ok.mp h
      cases h
      exact ⟨extendsType, extendedProps, rfl, hextended, rfl⟩
    · rintro ⟨_, extendedProps, h, hextended, rfl⟩
      cases h
      exact bind_eq_ok.mpr ⟨extendedProps, hextended, rfl⟩

variable {type : ICredentialType} {stack : Nat}

/-- What `getExtendedProps` collects: merged properties, in which the effective one of each name
is found. -/
theorem getExtendedProps_spec (h : getExtendedProps getByName stack type = .ok properties) :
    Merged properties ∧ ∀ name, (properties.find? fun v => decide (v.name = name)) =
      effectiveProperty getByName stack type name := by
  induction stack generalizing type properties with
  | zero => cases h
  | succ stack ih =>
    rw [getExtendedProps] at h
    obtain ⟨inherited, hfold, h⟩ := bind_eq_ok.mp h
    cases h
    have hinherited : Merged inherited ∧ ∀ name,
        (inherited.find? fun v => decide (v.name = name)) =
          type.extendsTypes.reverse.findSome? fun e =>
            (getByName e).bind fun extendsType =>
              effectiveProperty getByName stack extendsType name := by
      refine foldlM_along (fun pre props => Merged props ∧ ∀ name,
        (props.find? fun v => decide (v.name = name)) = pre.reverse.findSome? fun e =>
          (getByName e).bind fun extendsType =>
            effectiveProperty getByName stack extendsType name)
        ⟨⟨by simp, by simp⟩, fun name => rfl⟩ ?_ hfold
      intro pre e props props' _ hprops hround
      obtain ⟨extendsType, extendedProps, hget, hextended, rfl⟩ :=
        mergeExtendedProps_eq_ok.mp hround
      obtain ⟨hmerged, hfind⟩ := ih hextended
      refine ⟨hprops.1.mergeNodeProperties _, fun name => ?_⟩
      rw [find?_mergeNodeProperties, hmerged.lastInheritable_eq, hfind, hprops.2,
        List.reverse_append, List.reverse_singleton, List.singleton_append, List.findSome?_cons,
        hget]
      cases heffective : effectiveProperty getByName stack extendsType name <;> simp [heffective]
    refine ⟨hinherited.1.mergeNodeProperties _, fun name => ?_⟩
    rw [find?_mergeNodeProperties, hinherited.2, effectiveProperty]

theorem getExtendedProps_succeeds :
    (∃ properties, getExtendedProps getByName stack type = .ok properties) ↔
      Resolves getByName stack type := by
  induction stack generalizing type with
  | zero => simp [getExtendedProps, Resolves]
  | succ stack ih =>
    rw [getExtendedProps, Resolves]
    have hround : ∀ props e, (∃ props', mergeExtendedProps getByName
        (fun extendsType => getExtendedProps getByName stack extendsType) props e =
          .ok props') ↔ ∃ t, getByName e = some t ∧ Resolves getByName stack t := by
      intro props e
      simp only [mergeExtendedProps_eq_ok, ← ih]
      tauto
    have hextends := foldlM_succeeds_iff hround (l := type.extendsTypes) (b := [])
    constructor
    · rintro ⟨properties, h⟩
      obtain ⟨inherited, hfold, -⟩ := bind_eq_ok.mp h
      exact hextends.mp ⟨inherited, hfold⟩
    · intro h
      obtain ⟨inherited, hfold⟩ := hextends.mpr h
      exact ⟨_, bind_eq_ok.mpr ⟨inherited, hfold, rfl⟩⟩

/-! ## The restored values -/

theorem unredactRestoreItems_eq (replacement : PropertyTree) (index : Nat)
    (items : List PropertyTree) :
    unredactRestoreItems replacement index items = (items.zipIdx index).map fun item =>
      unredactRestoreValue (replacement.get (.index item.2)) item.1 := by
  induction items generalizing index with
  | nil => rfl
  | cons item rest ih => simp [unredactRestoreItems, ih]

theorem unredactRestoreValues_eq (replacement : PropertyTree) (entries : Entries) :
    unredactRestoreValues replacement entries = entries.map fun entry =>
      (entry.1, unredactRestoreValue (replacement.get entry.1) entry.2) := by
  induction entries with
  | nil => rfl
  | cons entry rest ih => simp [unredactRestoreValues, ih]

variable {value : PropertyTree}

theorem unredactRestoreValue_leaf (h : value.isContainer = false) (saved : PropertyTree) :
    unredactRestoreValue saved value = if isSentinel value then saved else value := by
  cases value with
  | array => cases h
  | object => cases h
  | string text => simp [unredactRestoreValue]
  | _ => rfl

variable {saved : PropertyTree}

theorem unredactRestoreValue_container (h : value.isContainer = true)
    (hsaved : saved.isContainer = true) :
    unredactRestoreValue saved value =
      value.mapChildren fun key child => unredactRestoreValue (saved.get key) child := by
  cases value with
  | array items =>
    simp [unredactRestoreValue, PropertyTree.mapChildren, hsaved, unredactRestoreItems_eq]
  | object entries =>
    simp [unredactRestoreValue, PropertyTree.mapChildren, hsaved, unredactRestoreValues_eq]
  | _ => cases h

theorem unredactRestoreValue_kept (h : value.isContainer = true)
    (hsaved : saved.isContainer = false) : unredactRestoreValue saved value = value := by
  cases value with
  | array items => simp [unredactRestoreValue, hsaved]
  | object entries => simp [unredactRestoreValue, hsaved]
  | _ => cases h

theorem isSentinel_of_isContainer (h : value.isContainer = true) : isSentinel value = false := by
  cases value with
  | string => cases h
  | _ => rfl

theorem restored_leaf (h : value.isContainer = false) (saved : PropertyTree) :
    restored saved value = if isSentinel value then saved else value := by
  rw [restored, PropertyTree.mapLeaves_leaf h, PropertyTree.valueAt_nil]

theorem restored_container (h : value.isContainer = true) (saved : PropertyTree) :
    restored saved value = value.mapChildren fun key child => restored (saved.get key) child := by
  rw [restored, PropertyTree.mapLeaves_container h]
  rfl

theorem unredactRestoreValue_self (value : PropertyTree) (hvalue : value.WellFormed) :
    unredactRestoreValue value value = value := by
  induction value using PropertyTree.induction_children with
  | leaf value h => rw [unredactRestoreValue_leaf h, ite_self]
  | container value h ih =>
    rw [unredactRestoreValue_container h h, PropertyTree.mapChildren_eq_self]
    intro entry hentry
    rw [PropertyTree.get_of_mem_children hvalue hentry]
    exact ih entry hentry (PropertyTree.wellFormed_of_mem_children hvalue hentry)

/-- Where nothing is saved, restoring changes nothing if and only if there is no sentinel
value. -/
theorem restored_undefined_iff (value : PropertyTree) (hvalue : value.WellFormed) :
    restored .undefined value = value ↔ ∀ path, isSentinel (value.valueAt path) = false := by
  induction value using PropertyTree.induction_children with
  | leaf value h =>
    rw [restored_leaf h]
    constructor
    · intro hkept path
      cases path with
      | nil =>
        by_contra hsentinel
        rw [if_pos (by simpa using hsentinel)] at hkept
        rw [← hkept] at hsentinel
        exact hsentinel rfl
      | cons key path => rw [PropertyTree.valueAt_of_not_isContainer h]; rfl
    · intro hnone
      rw [if_neg (by simpa using hnone [])]
  | container value h ih =>
    rw [restored_container h, PropertyTree.mapChildren_eq_self]
    have hbelow := PropertyTree.forall_valueAt_cons hvalue
      (P := fun _ _ below => isSentinel below = false) (fun _ _ => rfl) (fun _ _ _ => rfl)
    constructor
    · intro hkept path
      cases path with
      | nil => exact isSentinel_of_isContainer h
      | cons key path =>
        refine hbelow.mpr (fun entry hentry => ?_) key path
        exact (ih entry hentry (PropertyTree.wellFormed_of_mem_children hvalue hentry)).mp
          (hkept entry hentry)
    · intro hnone entry hentry
      exact (ih entry hentry (PropertyTree.wellFormed_of_mem_children hvalue hentry)).mpr
        (hbelow.mp (fun key path => hnone (key :: path)) entry hentry)

variable {edited : PropertyTree}

theorem covered_nil (saved : PropertyTree) (h : edited.isContainer = false) :
    Covered saved edited := by
  intro path key hsentinel
  cases path with
  | nil =>
    rw [List.nil_append, PropertyTree.valueAt_of_not_isContainer h] at hsentinel
    cases hsentinel
  | cons next path =>
    rw [List.cons_append, PropertyTree.valueAt_of_not_isContainer h] at hsentinel
    cases hsentinel

theorem covered_container (hedited : edited.WellFormed) (hsaved : saved.isContainer = true) :
    Covered saved edited ↔
      ∀ entry ∈ edited.children, Covered (saved.get entry.1) entry.2 := by
  have hbelow := PropertyTree.forall_valueAt_cons hedited
    (P := fun key path below => ∀ path' last, path = path' ++ [last] → isSentinel below = true →
      ((saved.get key).valueAt path').isContainer = true)
    (fun _ _ _ _ _ h => by cases h) (fun _ _ _ _ _ _ h => by cases h)
  constructor
  · intro h entry hentry path key hsentinel
    refine hbelow.mp ?_ entry hentry (path ++ [key]) path key rfl hsentinel
    rintro next _ path' last rfl hsentinel
    exact h (next :: path') last hsentinel
  · intro h path key hsentinel
    cases path with
    | nil => exact hsaved
    | cons next path =>
      refine hbelow.mpr (fun entry hentry => ?_) next (path ++ [key]) path key rfl hsentinel
      rintro _ path' last rfl hsentinel
      exact h entry hentry path' last hsentinel

theorem covered_leaf (hsaved : saved.isContainer = false) :
    Covered saved edited ↔ ∀ path key, isSentinel (edited.valueAt (path ++ [key])) = false := by
  have hnone : ∀ path, (saved.valueAt path).isContainer = false := by
    intro path
    cases path with
    | nil => exact hsaved
    | cons key path => rw [PropertyTree.valueAt_of_not_isContainer hsaved]; rfl
  simp [Covered, hnone]

/-- Restoring replaces exactly the sentinel values if and only if the saved data have the arrays
and objects that hold them. -/
theorem unredactRestoreValue_eq_iff (edited saved : PropertyTree) (hedited : edited.WellFormed) :
    unredactRestoreValue saved edited = restored saved edited ↔ Covered saved edited := by
  induction edited using PropertyTree.induction_children generalizing saved with
  | leaf edited h =>
    rw [unredactRestoreValue_leaf h, restored_leaf h]
    exact iff_of_true rfl (covered_nil saved h)
  | container edited h ih =>
    cases hsaved : saved.isContainer with
    | true =>
      rw [unredactRestoreValue_container h hsaved, restored_container h,
        PropertyTree.mapChildren_inj, covered_container hedited hsaved]
      exact forall₂_congr fun entry hentry =>
        ih entry hentry _ (PropertyTree.wellFormed_of_mem_children hedited hentry)
    | false =>
      have hnothing : restored saved edited = restored .undefined edited := by
        rw [restored_container h, restored_container h, PropertyTree.mapChildren_inj]
        intro entry _
        rw [PropertyTree.get_of_not_isContainer hsaved,
          PropertyTree.get_of_not_isContainer rfl]
      rw [unredactRestoreValue_kept h hsaved, covered_leaf hsaved, hnothing, eq_comm,
        restored_undefined_iff edited hedited]
      constructor
      · exact fun hnone path key => hnone (path ++ [key])
      · intro hnone path
        cases path using List.reverseRecOn with
        | nil => exact isSentinel_of_isContainer h
        | append_singleton path key => exact hnone path key

/-! ## The redacted entries -/

theorem find?_getExtendedProps (h : getExtendedProps getByName stack type = .ok properties)
    (dataKey : PropertyKey) :
    (properties.find? fun v => decide (.name v.name = dataKey)) =
      propertyFor getByName stack type dataKey := by
  cases dataKey with
  | name name =>
    rw [propertyFor, ← (getExtendedProps_spec h).2 name]
    simp only [PropertyKey.name.injEq]
  | index n => simp [propertyFor]

theorem sentinelFor_eq_ok {value' : PropertyTree} :
    sentinelFor value = .ok value' ↔ ∃ nonEmpty, toStringNonEmpty value = .ok nonEmpty ∧
      .string (if nonEmpty then credentialBlankingValue else credentialEmptyValue) = value' := by
  simp only [sentinelFor, bind_eq_ok, Except.ok.injEq]

theorem isSentinel_sentinelFor {value' : PropertyTree} (h : sentinelFor value = .ok value') :
    ∃ text, value' = .string text ∧ isSentinel value' = true := by
  obtain ⟨nonEmpty, -, rfl⟩ := sentinelFor_eq_ok.mp h
  exact ⟨_, rfl, by cases nonEmpty <;> simp [isSentinel]⟩

theorem sentinelFor_succeeds :
    (∃ value', sentinelFor value = .ok value') ↔
      ∃ nonEmpty, toStringNonEmpty value = .ok nonEmpty := by
  simp only [sentinelFor_eq_ok]
  constructor
  · rintro ⟨value', nonEmpty, h, -⟩
    exact ⟨nonEmpty, h⟩
  · rintro ⟨nonEmpty, h⟩
    exact ⟨_, nonEmpty, h, rfl⟩

section
variable {stack : Nat} {type : ICredentialType} {properties : List INodeProperties}
  (h : getExtendedProps getByName stack type = .ok properties)

variable {dataKey : PropertyKey}

theorem redactEntry_token (hkey : isTokenKey dataKey = true) (value : PropertyTree) :
    redactEntry properties dataKey value = sentinelFor value := by
  rw [redactEntry, if_pos hkey]

include h

theorem redactEntry_other (hkey : isTokenKey dataKey = false)
    (hother : ∀ property, propertyFor getByName stack type dataKey = some property →
      property.password = false) (value : PropertyTree) :
    redactEntry properties dataKey value = .ok value := by
  rw [redactEntry, if_neg (by simp [hkey]), find?_getExtendedProps h]
  cases hproperty : propertyFor getByName stack type dataKey with
  | none => rfl
  | some property => simp [hother property hproperty]

theorem redactEntry_password (hkey : isTokenKey dataKey = false) {property : INodeProperties}
    (hproperty : propertyFor getByName stack type dataKey = some property)
    (hpassword : property.password = true) (text : List Char) :
    redactEntry properties dataKey (.string text) =
      if isExpression property (.string text) then .ok (.string text)
      else sentinelFor (.string text) := by
  rw [redactEntry, if_neg (by simp [hkey]), find?_getExtendedProps h, hproperty]
  cases hexpression : isExpressionText text <;> cases hdata : property.noDataExpression <;>
    simp [hpassword, startsWithExpression, isExpression, hexpression, hdata, bind, Except.bind]

theorem redactEntry_typeError (hkey : isTokenKey dataKey = false) {property : INodeProperties}
    (hproperty : propertyFor getByName stack type dataKey = some property)
    (hpassword : property.password = true) {value : PropertyTree}
    (hvalue : ∀ text, value ≠ .string text) :
    redactEntry properties dataKey value = .error .typeError := by
  rw [redactEntry, if_neg (by simp [hkey]), find?_getExtendedProps h, hproperty]
  cases value with
  | string text => exact absurd rfl (hvalue text)
  | _ => simp [hpassword, startsWithExpression, bind, Except.bind]

/-- What becomes of an entry: a replaced one holds a sentinel value, and any other one is
unchanged. -/
theorem redactEntry_spec {value value' : PropertyTree}
    (hredact : redactEntry properties dataKey value = .ok value') :
    (Replaced getByName stack type dataKey value ∧
        ∃ text, value' = .string text ∧ isSentinel value' = true) ∨
      ¬ Replaced getByName stack type dataKey value ∧ value' = value := by
  cases hkey : isTokenKey dataKey with
  | true =>
    rw [redactEntry_token hkey] at hredact
    exact .inl ⟨.inl hkey, isSentinel_sentinelFor hredact⟩
  | false =>
    by_cases hother : ∀ property, propertyFor getByName stack type dataKey = some property →
        property.password = false
    · rw [redactEntry_other h hkey hother] at hredact
      cases hredact
      refine .inr ⟨?_, rfl⟩
      rintro (htoken | ⟨property, hproperty, hpassword, -⟩)
      · rw [hkey] at htoken; cases htoken
      · rw [hother property hproperty] at hpassword; cases hpassword
    · simp only [not_forall, Bool.not_eq_false] at hother
      obtain ⟨property, hproperty, hpassword⟩ := hother
      by_cases htext : ∃ text, value = .string text
      · obtain ⟨text, rfl⟩ := htext
        rw [redactEntry_password h hkey hproperty hpassword] at hredact
        cases hexpression : isExpression property (.string text) with
        | true =>
          rw [if_pos hexpression] at hredact
          cases hredact
          refine .inr ⟨?_, rfl⟩
          rintro (htoken | ⟨property', hproperty', -, hplain⟩)
          · rw [hkey] at htoken; cases htoken
          · rw [hproperty] at hproperty'
            cases hproperty'
            rw [hexpression] at hplain; cases hplain
        | false =>
          rw [if_neg (by simp [hexpression])] at hredact
          exact .inl ⟨.inr ⟨property, hproperty, hpassword, hexpression⟩,
            isSentinel_sentinelFor hredact⟩
      · rw [redactEntry_typeError h hkey hproperty hpassword (by simpa using htext)] at hredact
        cases hredact

/-- The redaction of an entry succeeds for a token that can be converted to a text, and for a
password that is a text. -/
theorem redactEntry_succeeds (dataKey : PropertyKey) (value : PropertyTree) :
    (∃ value', redactEntry properties dataKey value = .ok value') ↔
      (isTokenKey dataKey = true → ∃ nonEmpty, toStringNonEmpty value = .ok nonEmpty) ∧
        (isTokenKey dataKey = false → ∀ property,
          propertyFor getByName stack type dataKey = some property → property.password = true →
            ∃ text, value = .string text) := by
  cases hkey : isTokenKey dataKey with
  | true => simp [redactEntry_token hkey, sentinelFor_succeeds]
  | false =>
    simp only [Bool.false_eq_true, false_implies, true_and, forall_const]
    constructor
    · rintro ⟨value', hvalue'⟩ property hproperty hpassword
      by_contra htext
      rw [redactEntry_typeError h hkey hproperty hpassword (by simpa using htext)] at hvalue'
      cases hvalue'
    · intro htext
      by_cases hother : ∀ property, propertyFor getByName stack type dataKey = some property →
          property.password = false
      · exact ⟨value, redactEntry_other h hkey hother value⟩
      · simp only [not_forall, Bool.not_eq_false] at hother
        obtain ⟨property, hproperty, hpassword⟩ := hother
        obtain ⟨text, rfl⟩ := htext property hproperty hpassword
        rw [redactEntry_password h hkey hproperty hpassword]
        split
        · exact ⟨_, rfl⟩
        · exact sentinelFor_succeeds.mpr ⟨_, by rw [toStringNonEmpty]⟩

end

variable {data redacted : Entries}

theorem redactEntries_eq_ok :
    redactEntries properties data = .ok redacted ↔
      List.Forall₂ (fun entry entry' => entry'.1 = entry.1 ∧
        redactEntry properties entry.1 entry.2 = .ok entry'.2) data redacted := by
  induction data generalizing redacted with
  | nil =>
    rw [redactEntries, List.forall₂_nil_left_iff]
    exact ⟨fun h => by cases h; rfl, fun h => by rw [h]⟩
  | cons entry rest ih =>
    rw [redactEntries]
    simp only [bind_eq_ok, Except.ok.injEq, List.forall₂_cons_left_iff, ← ih]
    constructor
    · rintro ⟨value', hvalue, rest', hrest, rfl⟩
      exact ⟨(entry.1, value'), rest', ⟨rfl, hvalue⟩, hrest, rfl⟩
    · rintro ⟨entry', rest', ⟨hkey, hvalue⟩, hrest, rfl⟩
      exact ⟨entry'.2, hvalue, rest', hrest, by rw [← hkey]⟩

theorem redactEntries_succeeds :
    (∃ redacted, redactEntries properties data = .ok redacted) ↔
      ∀ entry ∈ data, ∃ value', redactEntry properties entry.1 entry.2 = .ok value' := by
  induction data with
  | nil => simp [redactEntries]
  | cons entry rest ih =>
    rw [redactEntries, List.forall_mem_cons, ← ih]
    simp only [bind_eq_ok, Except.ok.injEq]
    constructor
    · rintro ⟨_, value', hvalue, rest', hrest, rfl⟩
      exact ⟨⟨value', hvalue⟩, rest', hrest⟩
    · rintro ⟨⟨value', hvalue⟩, rest', hrest⟩
      exact ⟨_, value', hvalue, rest', hrest, rfl⟩

theorem Secret.of_string {dataKey : PropertyKey} {text : List Char} {secret : PropertyTree}
    (h : Secret getByName stack type dataKey (.string text) secret) : secret = .string text := by
  cases h with
  | token => rfl
  | password _ _ _ _ _ hsecret =>
    cases hsecret
    rfl

theorem unredact_redactEntries (h : getExtendedProps getByName stack type = .ok properties)
    (data : CredentialData) (hredact : redactEntries properties data.entries = .ok redacted) :
    unredact redacted data.entries = data.entries := by
  rw [unredact, unredactRestoreValues_eq]
  have hdata : ∀ entry ∈ data.entries,
      (PropertyTree.object data.entries).get entry.1 = entry.2 ∧ entry.2.WellFormed :=
    fun entry hentry => ⟨PropertyTree.get_of_mem_children data.wellFormed hentry,
      PropertyTree.wellFormed_of_mem_children data.wellFormed hentry⟩
  have hentries := redactEntries_eq_ok.mp hredact
  clear hredact
  generalize PropertyTree.object data.entries = saved at hdata ⊢
  generalize data.entries = entries at hdata hentries ⊢
  induction hentries with
  | nil => rfl
  | @cons entry entry' rest rest' hentry _ ih =>
    obtain ⟨hget, hwellFormed⟩ := hdata entry (by simp)
    obtain ⟨hkey, hvalue⟩ := hentry
    rw [List.map_cons, ih fun e he => hdata e (by simp [he]), hkey, hget]
    suffices unredactRestoreValue entry.2 entry'.2 = entry.2 by rw [this]
    rcases redactEntry_spec h hvalue with ⟨-, text, htext, hsentinel⟩ | ⟨-, hsame⟩
    · rw [unredactRestoreValue_leaf (by rw [htext]; rfl), if_pos hsentinel]
    · rw [hsame, unredactRestoreValue_self entry.2 hwellFormed]

theorem noSecrets_redactEntries (h : getExtendedProps getByName stack type = .ok properties)
    (hredact : redactEntries properties data = .ok redacted) :
    NoSecrets getByName stack type redacted ↔
      ∀ entry ∈ data, ¬ Replaced getByName stack type entry.1 entry.2 →
        ∀ secret, Secret getByName stack type entry.1 entry.2 secret →
          isSentinel secret = true := by
  unfold NoSecrets
  have hentries := redactEntries_eq_ok.mp hredact
  clear hredact
  induction hentries with
  | nil => simp
  | @cons entry entry' rest rest' hentry _ ih =>
    rw [List.forall_mem_cons, List.forall_mem_cons]
    obtain ⟨hkey, hvalue⟩ := hentry
    refine and_congr ?_ ih
    rw [hkey]
    rcases redactEntry_spec h hvalue with ⟨hreplaced, text, htext, hsentinel⟩ | ⟨hplain, hsame⟩
    · refine iff_of_true (fun secret hsecret => ?_) (fun hplain => absurd hreplaced hplain)
      rw [htext] at hsecret
      rwa [hsecret.of_string, ← htext]
    · rw [hsame]
      exact ⟨fun hno _ => hno, fun hno => hno hplain⟩

/-- A property that holds a text. -/
def textProperty (name : List Char) (password : Bool) : INodeProperties :=
  { name, password, noDataExpression := false, doNotInherit := false, options := [] }

/-- A type with a password and a collection of headers, of which one is a password. -/
def headerAuth : ICredentialType where
  properties := [textProperty ['k', 'e', 'y'] true,
    { textProperty ['h', 'e', 'a', 'd', 'e', 'r', 's'] false with
      options := [textProperty ['t', 'o', 'k', 'e', 'n'] true] }]
  extendsTypes := []

/-- Data with one entry. -/
def CredentialData.single (name : List Char) (value : PropertyTree) (h : value.WellFormed) :
    CredentialData where
  entries := [(.name name, value)]
  wellFormed := ⟨List.nodup_singleton _, h, trivial⟩

/-- The headers with a token. -/
def tokenHeader : PropertyTree := .object [(.name ['t', 'o', 'k', 'e', 'n'], .string ['s'])]

theorem wellFormed_tokenHeader : tokenHeader.WellFormed :=
  ⟨List.nodup_singleton _, trivial, trivial⟩

end N8n.Credentials
