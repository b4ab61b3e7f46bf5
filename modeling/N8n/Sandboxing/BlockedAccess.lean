import N8n.Collections.Fallible
import N8n.Sandboxing.Evaluation

/-!
# Blocked properties

A sanitized expression accesses a forbidden property only through a key that is a template
literal, which is neither checked nor passed to the sanitizer, or through an object that converts
to a forbidden name, which the sanitizer compares before the conversion. Every other access, by a
name, a literal or a computed value, is to a property that is not forbidden.
-/

namespace N8n.Sandboxing

open Collections Transition Computation

/-- The key of the access escapes the checks: it is a template, or an object. -/
def Access.Unchecked (access : Access) : Prop :=
  access.form = .template ∨ access.value.isObject = true

/-- Every access up to now is to a property that is not forbidden, or it escapes the checks. -/
def Guarded {σ : Type} (w : World σ) : Prop :=
  ∀ access ∈ w.accesses, access.key.isForbidden = false ∨ access.Unchecked

/-- Is this what the sanitizer leaves as a computed property? -/
def PropertyChecked : Expression → Prop
  | .stringLiteral value => isSafeObjectProperty value = true
  | .numericLiteral _ | .templateLiteral _ _ | .sanitized _ => True
  | _ => False

mutual

/-- All property names and computed properties in the expression are checked. -/
def Checked : Expression → Prop
  | .identifier _ | .stringLiteral _ | .numericLiteral _ => True
  | .templateLiteral _ parts => CheckedParts parts
  | .array elements => CheckedAll elements
  | .chain expression => Checked expression
  | .member object name _ => Checked object ∧ isSafeObjectProperty name = true
  | .computed object property _ => Checked object ∧ Checked property ∧ PropertyChecked property
  | .call callee arguments _ => Checked callee ∧ CheckedAll arguments
  | .assignMember object name value =>
    Checked object ∧ Checked value ∧ isSafeObjectProperty name = true
  | .assignComputed object property value =>
    Checked object ∧ Checked property ∧ Checked value ∧ PropertyChecked property
  | .sanitized value => Checked value

/-- `Checked` of the expressions of a template. -/
def CheckedParts : List (Expression × List Char) → Prop
  | [] => True
  | (expression, _) :: rest => Checked expression ∧ CheckedParts rest

/-- `Checked` of several expressions. -/
def CheckedAll : List Expression → Prop
  | [] => True
  | expression :: rest => Checked expression ∧ CheckedAll rest

end

/-! ## The rewriting -/

theorem sanitizeComputed_checked {object property result : Expression} {optional : Bool}
    (hobject : Checked object) (hproperty : Checked property)
    (h : sanitizeComputed object property optional = .ok result) : Checked result := by
  cases property with
  | stringLiteral value =>
    simp only [sanitizeComputed] at h
    split at h
    · next hsafe =>
        cases h
        exact ⟨hobject, hproperty, hsafe⟩
    · cases h
  | _ =>
    cases h
    exact ⟨hobject, hproperty, trivial⟩

theorem sanitizeAssigned_checked {object property value result : Expression}
    (hobject : Checked object) (hproperty : Checked property) (hvalue : Checked value)
    (h : sanitizeAssigned object property value = .ok result) : Checked result := by
  cases property with
  | stringLiteral name =>
    simp only [sanitizeAssigned] at h
    split at h
    · next hsafe =>
        cases h
        exact ⟨hobject, hproperty, hvalue, hsafe⟩
    · cases h
  | _ =>
    cases h
    exact ⟨hobject, hproperty, hvalue, trivial⟩

mutual

theorem sanitize_checked {expression result : Expression} (h : sanitize expression = .ok result) :
    Checked result := by
  cases expression with
  | identifier name => cases h; trivial
  | stringLiteral value => cases h; trivial
  | numericLiteral value => cases h; trivial
  | templateLiteral head parts =>
    obtain ⟨parts', hparts, h⟩ := bind_eq_ok.mp h
    cases h
    exact sanitizeParts_checked hparts
  | array elements =>
    obtain ⟨elements', helements, h⟩ := bind_eq_ok.mp h
    cases h
    exact sanitizeAll_checked helements
  | chain expression =>
    obtain ⟨expression', hexpression, h⟩ := bind_eq_ok.mp h
    cases h
    show Checked expression'
    exact sanitize_checked hexpression
  | member object name optional =>
    obtain ⟨object', hobject, h⟩ := bind_eq_ok.mp h
    split at h
    · next hsafe =>
        cases h
        exact ⟨sanitize_checked hobject, hsafe⟩
    · cases h
  | computed object property optional =>
    obtain ⟨object', hobject, h⟩ := bind_eq_ok.mp h
    obtain ⟨property', hproperty, h⟩ := bind_eq_ok.mp h
    exact sanitizeComputed_checked (sanitize_checked hobject) (sanitize_checked hproperty) h
  | call callee arguments optional =>
    obtain ⟨callee', hcallee, h⟩ := bind_eq_ok.mp h
    obtain ⟨arguments', harguments, h⟩ := bind_eq_ok.mp h
    cases h
    exact ⟨sanitize_checked hcallee, sanitizeAll_checked harguments⟩
  | assignMember object name value =>
    obtain ⟨object', hobject, h⟩ := bind_eq_ok.mp h
    obtain ⟨value', hvalue, h⟩ := bind_eq_ok.mp h
    split at h
    · next hsafe =>
        cases h
        exact ⟨sanitize_checked hobject, sanitize_checked hvalue, hsafe⟩
    · cases h
  | assignComputed object property value =>
    obtain ⟨object', hobject, h⟩ := bind_eq_ok.mp h
    obtain ⟨property', hproperty, h⟩ := bind_eq_ok.mp h
    obtain ⟨value', hvalue, h⟩ := bind_eq_ok.mp h
    exact sanitizeAssigned_checked (sanitize_checked hobject) (sanitize_checked hproperty)
      (sanitize_checked hvalue) h
  | sanitized value =>
    obtain ⟨value', hvalue, h⟩ := bind_eq_ok.mp h
    cases h
    show Checked value'
    exact sanitize_checked hvalue

theorem sanitizeParts_checked {parts result : List (Expression × List Char)}
    (h : sanitizeParts parts = .ok result) : CheckedParts result := by
  cases parts with
  | nil => cases h; trivial
  | cons part rest =>
    obtain ⟨expression, text⟩ := part
    obtain ⟨expression', hexpression, h⟩ := bind_eq_ok.mp h
    obtain ⟨rest', hrest, h⟩ := bind_eq_ok.mp h
    cases h
    exact ⟨sanitize_checked hexpression, sanitizeParts_checked hrest⟩

theorem sanitizeAll_checked {expressions result : List Expression}
    (h : sanitizeAll expressions = .ok result) : CheckedAll result := by
  cases expressions with
  | nil => cases h; trivial
  | cons expression rest =>
    obtain ⟨expression', hexpression, h⟩ := bind_eq_ok.mp h
    obtain ⟨rest', hrest, h⟩ := bind_eq_ok.mp h
    cases h
    exact ⟨sanitize_checked hexpression, sanitizeAll_checked hrest⟩

end

/-! ## The evaluation -/

theorem isSafeObjectProperty_number (value : JsNumber) :
    isSafeObjectProperty value.text = true := by
  cases hsafe : isSafeObjectProperty value.text with
  | true => rfl
  | false =>
    have hmem : value.text ∈ unsafeObjectProperties := by
      simpa [isSafeObjectProperty] using hsafe
    have hvalid := value.valid
    simp only [unsafeObjectProperties, List.mem_cons, List.not_mem_nil, or_false] at hmem
    -- each of the forbidden names has a letter that no number has
    rcases hmem with h | h | h | h <;> rw [h] at hvalid <;>
      exact absurd hvalid (by decide +kernel)

section
variable {σ : Type} {host : Host σ}

theorem onHost_ensures {α : Type} (x : Computation σ JsError α) :
    Ensures Guarded (onHost x) fun _ => True :=
  fun _ hw => ⟨hw, fun _ _ => trivial⟩

theorem toPropertyKey_ensures (value : JsValue) :
    Ensures Guarded (toPropertyKey host value) fun key => key.isForbidden = true →
      value.isObject = true ∨ ∃ text, value = .string text ∧ isSafeObjectProperty text = false := by
  cases value with
  | undefined => exact .pure fun h => absurd h (by decide +kernel)
  | null => exact .pure fun h => absurd h (by decide +kernel)
  | boolean value => cases value <;> exact .pure fun h => absurd h (by decide +kernel)
  | number value =>
    refine .pure fun h => ?_
    rw [Key.isForbidden, isSafeObjectProperty_number value] at h
    cases h
  | string text => exact .pure fun h => .inr ⟨text, rfl, by simpa [Key.isForbidden] using h⟩
  | symbol id => exact .pure fun h => by cases h
  | object reference => exact (onHost_ensures _).weaken fun _ _ _ => .inl rfl

theorem accessKey_ensures {form : PropertyForm} {base value : JsValue}
    (hvalue : ∀ text, value = .string text → form = .template ∨ isSafeObjectProperty text = true) :
    Ensures Guarded (accessKey host form base value) fun _ => True := by
  unfold accessKey
  split
  · exact .fail _ _
  · refine (toPropertyKey_ensures value).bind fun key hkey =>
      Ensures.bind (P := fun _ => True) (fun w hw => ⟨?_, fun _ _ => trivial⟩)
        fun _ _ => .pure trivial
    intro access haccess
    rcases List.mem_append.mp haccess with haccess | hnew
    · exact hw access haccess
    · rw [List.mem_singleton.mp hnew]
      cases hforbidden : key.isForbidden with
      | false => exact .inl rfl
      | true =>
        rcases hkey hforbidden with hobject | ⟨text, htext, hforbiddenText⟩
        · exact .inr (.inr hobject)
        · rcases hvalue text htext with htemplate | hsafe
          · exact .inr (.inl htemplate)
          · rw [hforbiddenText] at hsafe
            cases hsafe

theorem getMember_ensures {form : PropertyForm} {base value : JsValue}
    (hvalue : ∀ text, value = .string text → form = .template ∨ isSafeObjectProperty text = true) :
    Ensures Guarded (getMember host form base value) fun _ => True :=
  (accessKey_ensures hvalue).bind fun _ _ => onHost_ensures _

theorem setMember_ensures {form : PropertyForm} {base value newValue : JsValue}
    (hvalue : ∀ text, value = .string text → form = .template ∨ isSafeObjectProperty text = true) :
    Ensures Guarded (setMember host form base value newValue) fun _ => True :=
  (accessKey_ensures hvalue).bind fun _ _ => (onHost_ensures _).bind fun _ _ => .pure trivial

theorem toText_ensures (value : JsValue) : Ensures Guarded (toText host value) fun _ => True := by
  refine (toPropertyKey_ensures value).bind fun key _ => ?_
  cases key with
  | string text => exact .pure trivial
  | symbol id => exact .fail _ _

theorem sanitizer_ensures (value : JsValue) :
    Ensures Guarded (sanitizer value : Evaluation σ JsValue) fun result =>
      ∀ text, result = .string text → isSafeObjectProperty text = true := by
  cases value with
  | string text =>
    simp only [sanitizer]
    split
    · next hsafe =>
        refine .pure fun text' h => ?_
        cases h
        exact hsafe
    · exact .fail _ _
  | _ => exact .pure fun text h => by cases h

/-- What a checked property yields: no forbidden text, unless it is a template. -/
def Fits (property : Expression) (result : Option Reference) : Prop :=
  PropertyChecked property → ∀ text, valueOf result = .string text →
    formOf property = .template ∨ isSafeObjectProperty text = true

theorem fits_of_not_checked {property : Expression} (h : ¬ PropertyChecked property)
    (result : Option Reference) : Fits property result :=
  fun hchecked => absurd hchecked h

mutual

theorem evaluate_ensures {expression : Expression} (h : Checked expression) :
    Ensures Guarded (evaluate host expression) (Fits expression) := by
  cases expression with
  | identifier name =>
    exact (onHost_ensures _).bind fun _ _ => .pure (fits_of_not_checked id _)
  | stringLiteral value =>
    refine .pure fun hsafe text htext => .inr ?_
    cases htext
    exact hsafe
  | numericLiteral value => exact .pure fun _ text htext => by cases htext
  | templateLiteral head parts =>
    exact (evaluateParts_ensures h).bind fun _ _ => .pure fun _ _ _ => .inl rfl
  | array elements =>
    exact (evaluateAll_ensures h).bind fun _ _ =>
      (onHost_ensures _).bind fun _ _ => .pure (fits_of_not_checked id _)
  | chain expression =>
    have hexpression : Checked expression := h
    exact (evaluate_ensures hexpression).bind fun _ _ => .pure (fits_of_not_checked id _)
  | member object name optional =>
    obtain ⟨hobject, hname⟩ := h
    refine (evaluate_ensures hobject).bind fun result _ => ?_
    cases result with
    | none => exact .pure (fits_of_not_checked id _)
    | some base =>
      simp only
      split
      · exact .pure (fits_of_not_checked id _)
      · refine (getMember_ensures fun text htext => .inr ?_).bind fun _ _ =>
          .pure (fits_of_not_checked id _)
        cases htext
        exact hname
  | computed object property optional =>
    obtain ⟨hobject, hproperty, hchecked⟩ := h
    refine (evaluate_ensures hobject).bind fun result _ => ?_
    cases result with
    | none => exact .pure (fits_of_not_checked id _)
    | some base =>
      simp only
      split
      · exact .pure (fits_of_not_checked id _)
      · exact (evaluate_ensures hproperty).bind fun key hkey =>
          (getMember_ensures (hkey hchecked)).bind fun _ _ =>
            .pure (fits_of_not_checked id _)
  | call callee arguments optional =>
    obtain ⟨hcallee, harguments⟩ := h
    refine (evaluate_ensures hcallee).bind fun result _ => ?_
    cases result with
    | none => exact .pure (fits_of_not_checked id _)
    | some function =>
      simp only
      split
      · exact .pure (fits_of_not_checked id _)
      · exact (evaluateAll_ensures harguments).bind fun _ _ =>
          (onHost_ensures _).bind fun _ _ => .pure (fits_of_not_checked id _)
  | assignMember object name value =>
    obtain ⟨hobject, hvalue, hname⟩ := h
    refine (evaluate_ensures hobject).bind fun _ _ => (evaluate_ensures hvalue).bind fun _ _ =>
      (setMember_ensures fun text htext => .inr ?_).bind fun _ _ =>
        .pure (fits_of_not_checked id _)
    cases htext
    exact hname
  | assignComputed object property value =>
    obtain ⟨hobject, hproperty, hvalue, hchecked⟩ := h
    exact (evaluate_ensures hobject).bind fun _ _ => (evaluate_ensures hproperty).bind
      fun key hkey => (evaluate_ensures hvalue).bind fun _ _ =>
        (setMember_ensures (hkey hchecked)).bind fun _ _ => .pure (fits_of_not_checked id _)
  | sanitized value =>
    have hvalue : Checked value := h
    exact (evaluate_ensures hvalue).bind fun _ _ => (sanitizer_ensures _).bind
      fun result hresult => .pure fun _ text htext => .inr (hresult text htext)

theorem evaluateParts_ensures {parts : List (Expression × List Char)} (h : CheckedParts parts) :
    Ensures Guarded (evaluateParts host parts) fun _ => True := by
  cases parts with
  | nil => exact .pure trivial
  | cons part rest =>
    obtain ⟨expression, text⟩ := part
    exact (evaluate_ensures h.1).bind fun _ _ => (toText_ensures _).bind fun _ _ =>
      (evaluateParts_ensures h.2).bind fun _ _ => .pure trivial

theorem evaluateAll_ensures {expressions : List Expression} (h : CheckedAll expressions) :
    Ensures Guarded (evaluateAll host expressions) fun _ => True := by
  cases expressions with
  | nil => exact .pure trivial
  | cons expression rest =>
    exact (evaluate_ensures h.1).bind fun _ _ =>
      (evaluateAll_ensures h.2).bind fun _ _ => .pure trivial

end

end

/-- A host with one array, which converts to its only element. -/
def arrayHost : Host (List Char) where
  lookup _ := pure (.object 0)
  newArray values _ := (.object 1, match values with | [.string text] => text | _ => [])
  toKey _ := fun text => (.ok (.string text), text)
  get _ _ := pure .undefined
  set _ _ _ := pure ()
  call _ _ _ := pure .undefined

end N8n.Sandboxing
