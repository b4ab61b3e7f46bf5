import Mathlib.Data.List.Induction

/-!
# Traversals that may fail

Lists traversed in `Except ε`: when every element succeeds, the traversal yields the elements'
results, as the pure traversal does.
-/

namespace N8n.Collections

variable {α β ε : Type}

variable {x : Except ε α} {f : α → Except ε β}

/-- A sequence succeeds when its first part does and then its second part. -/
theorem bind_eq_ok {r : β} : (x >>= f) = .ok r ↔ ∃ a, x = .ok a ∧ f a = .ok r := by
  cases x <;> simp [bind, Except.bind]

theorem bind_pure_succeeds_iff {f : α → β} :
    (∃ r, (x >>= fun a => pure (f a)) = .ok r) ↔ ∃ a, x = .ok a := by
  cases x <;> simp [bind, Except.bind, pure, Except.pure]

variable {γ : Type}

/-- What is done with the result of a sequence can be done by its last part. -/
theorem map_bind_pure (x : Except ε α) (f : α → β) (g : β → γ) :
    (x >>= fun a => pure (f a)).map g = x >>= fun a => pure (g (f a)) := by
  cases x <;> rfl

variable {l : List α}

theorem foldlM_eq_ok {f : β → α → Except ε β} {g : β → α → β}
    (h : ∀ b, ∀ a ∈ l, f b a = .ok (g b a)) (b : β) : l.foldlM f b = .ok (l.foldl g b) := by
  induction l generalizing b with
  | nil => rfl
  | cons a rest ih =>
    rw [List.foldlM_cons, h b a (by simp)]
    exact ih (fun b a ha => h b a (by simp [ha])) (g b a)

variable {b c : β}

theorem mapM_eq_ok {F : α → β} (h : ∀ x ∈ l, f x = .ok (F x)) : l.mapM f = .ok (l.map F) := by
  induction l with
  | nil => rfl
  | cons x rest ih =>
    rw [List.mapM_cons, h x (by simp), ih fun y hy => h y (by simp [hy])]
    rfl

variable {r : List β}

theorem exists_of_mem_mapM (h : l.mapM f = .ok r) (hb : b ∈ r) : ∃ a ∈ l, f a = .ok b := by
  induction l generalizing r with
  | nil =>
    cases h
    exact absurd hb List.not_mem_nil
  | cons x rest ih =>
    rw [List.mapM_cons] at h
    obtain ⟨first, hfirst, h⟩ := bind_eq_ok.mp h
    obtain ⟨last, hlast, h⟩ := bind_eq_ok.mp h
    cases h
    obtain rfl | hb := List.mem_cons.mp hb
    · exact ⟨x, List.mem_cons_self, hfirst⟩
    · obtain ⟨a, ha, hresult⟩ := ih hlast hb
      exact ⟨a, List.mem_cons_of_mem x ha, hresult⟩

/-- Every element of a traversal that succeeds has a result. -/
theorem mapM_ok_of_mem (h : l.mapM f = .ok r) {a : α} (ha : a ∈ l) : ∃ b, f a = .ok b := by
  induction l generalizing r with
  | nil => exact absurd ha List.not_mem_nil
  | cons x rest ih =>
    rw [List.mapM_cons] at h
    obtain ⟨first, hfirst, h⟩ := bind_eq_ok.mp h
    obtain ⟨last, hlast, -⟩ := bind_eq_ok.mp h
    rcases List.mem_cons.mp ha with rfl | hrest
    · exact ⟨first, hfirst⟩
    · exact ih hlast hrest

theorem length_of_mapM (h : l.mapM f = .ok r) : r.length = l.length := by
  induction l generalizing r with
  | nil =>
    cases h
    rfl
  | cons x rest ih =>
    rw [List.mapM_cons] at h
    obtain ⟨first, -, h⟩ := bind_eq_ok.mp h
    obtain ⟨last, hlast, h⟩ := bind_eq_ok.mp h
    cases h
    exact congrArg Nat.succ (ih hlast)

theorem eq_nil_of_mapM_eq_nil (h : l.mapM f = .ok []) : l = [] :=
  List.length_eq_zero_iff.mp (length_of_mapM h).symm

/-- A traversal that concatenates, whose elements all succeed. -/
theorem flatMapM_eq_ok {f : α → Except ε (List β)} {F : α → List β} (h : ∀ x ∈ l, f x = .ok (F x)) :
    l.flatMapM f = .ok (l.flatMap F) := by
  induction l with
  | nil => rfl
  | cons x rest ih =>
    rw [List.flatMapM_cons, h x (by simp), ih fun y hy => h y (by simp [hy])]
    rfl

theorem flatMapM_congr {f g : α → Except ε (List β)} (h : ∀ x ∈ l, f x = g x) :
    l.flatMapM f = l.flatMapM g := by
  induction l with
  | nil => rfl
  | cons x rest ih =>
    rw [List.flatMapM_cons, List.flatMapM_cons, h x (by simp), ih fun y hy => h y (by simp [hy])]

/-- A traversal of two lists is the traversal of the first and then of the second. -/
theorem flatMapM_append (f : α → Except ε (List β)) (l₁ l₂ : List α) :
    (l₁ ++ l₂).flatMapM f =
      (l₁.flatMapM f).bind fun r₁ => (l₂.flatMapM f).map (r₁ ++ ·) := by
  induction l₁ with
  | nil =>
    rw [List.nil_append, List.flatMapM_nil]
    cases l₂.flatMapM f <;> rfl
  | cons x rest ih =>
    rw [List.cons_append, List.flatMapM_cons, List.flatMapM_cons, ih]
    cases f x with
    | error e => rfl
    | ok first =>
      cases rest.flatMapM f with
      | error e => rfl
      | ok middle =>
        cases l₂.flatMapM f with
        | error e => rfl
        | ok last =>
          simp [bind, Except.bind, Except.map, pure, Except.pure, List.append_assoc]

theorem flatMapM_flatMap (f : α → Except ε (List β)) (g : γ → List α) (l : List γ) :
    (l.flatMap g).flatMapM f = l.flatMapM fun part => (g part).flatMapM f := by
  induction l with
  | nil => rfl
  | cons part rest ih =>
    rw [List.flatMap_cons, flatMapM_append, ih, List.flatMapM_cons]
    cases (g part).flatMapM f with
    | error e => rfl
    | ok first => cases rest.flatMapM fun part => (g part).flatMapM f <;> rfl

theorem foldlM_collects (f : α → Except ε (List β)) (l : List α) : ∀ collected : List β,
    l.foldlM (fun collected x => (f x).map (collected ++ ·)) collected =
      (l.flatMapM f).map (collected ++ ·) := by
  induction l with
  | nil => exact fun collected => by simp [pure, Except.pure, Except.map]
  | cons x rest ih =>
    intro collected
    rw [List.foldlM_cons, List.flatMapM_cons]
    cases f x with
    | error e => rfl
    | ok first =>
      refine (ih (collected ++ first)).trans ?_
      cases rest.flatMapM f with
      | error e => rfl
      | ok last =>
        simp [bind, Except.bind, Except.map, pure, Except.pure, List.append_assoc]

theorem mapError_flatMapM {δ : Type} (g : ε → δ) (f : α → Except ε (List β)) (l : List α) :
    (l.flatMapM f).mapError g = l.flatMapM fun x => (f x).mapError g := by
  induction l with
  | nil => rfl
  | cons x rest ih =>
    rw [List.flatMapM_cons, List.flatMapM_cons, ← ih]
    cases f x with
    | error e => rfl
    | ok first => cases rest.flatMapM f <;> rfl

/-- A fold succeeds on a list with one more element at the end when it succeeds on the list and
then on the element. -/
theorem foldlM_snoc_eq_ok {f : β → α → Except ε β} {x : α} :
    (l ++ [x]).foldlM f b = .ok c ↔ ∃ m, l.foldlM f b = .ok m ∧ f m x = .ok c := by
  rw [List.foldlM_append]
  cases h : l.foldlM f b with
  | error e => simp [bind, Except.bind]
  | ok m => simp [bind, Except.bind, pure, Except.pure]; cases f m x <;> simp

theorem foldlM_succeeds_iff {f : β → α → Except ε β} {S : α → Prop}
    (hround : ∀ b a, (∃ c, f b a = .ok c) ↔ S a) : (∃ c, l.foldlM f b = .ok c) ↔ ∀ a ∈ l, S a := by
  induction l generalizing b with
  | nil => exact ⟨fun _ a ha => (List.not_mem_nil ha).elim, fun _ => ⟨b, rfl⟩⟩
  | cons a rest ih =>
    simp only [List.foldlM_cons, bind_eq_ok, List.forall_mem_cons]
    constructor
    · rintro ⟨c, middle, hmiddle, hrest⟩
      exact ⟨(hround b a).mp ⟨middle, hmiddle⟩, ih.mp ⟨c, hrest⟩⟩
    · rintro ⟨ha, hrest⟩
      obtain ⟨middle, hmiddle⟩ := (hround b a).mpr ha
      obtain ⟨c, hc⟩ := (ih (b := middle)).mpr hrest
      exact ⟨c, middle, hmiddle, hc⟩

theorem foldlM_keeps (Inv : β → Prop) {f : β → α → Except ε β}
    (hstep : ∀ b b', ∀ a ∈ l, Inv b → f b a = .ok b' → Inv b') (hb : Inv b)
    (h : l.foldlM f b = .ok c) : Inv c := by
  induction l generalizing b with
  | nil =>
    cases h
    exact hb
  | cons a rest ih =>
    rw [List.foldlM_cons] at h
    obtain ⟨middle, hmiddle, h⟩ := bind_eq_ok.mp h
    exact ih (fun b b' a ha => hstep b b' a (by simp [ha]))
      (hstep b middle a (by simp) hb hmiddle)
      h

/-- What every round of a fold carries from the elements before it to those up to it holds of the
whole list at the end. -/
theorem foldlM_along (Inv : List α → β → Prop) {f : β → α → Except ε β} (hstart : Inv [] b)
    (hstep : ∀ pre a m m', pre ++ [a] <+: l → Inv pre m → f m a = .ok m' → Inv (pre ++ [a]) m')
    (h : l.foldlM f b = .ok c) : Inv l c := by
  induction l using List.reverseRecOn generalizing c with
  | nil =>
    cases h
    exact hstart
  | append_singleton pre a ih =>
    obtain ⟨m, hpre, ha⟩ := foldlM_snoc_eq_ok.mp h
    have hinv := ih (fun pre' a' m m' hpre' =>
      hstep pre' a' m m' (hpre'.trans (List.prefix_append pre [a]))) hpre
    exact hstep pre a m c (List.prefix_refl _) hinv ha

/-- Run `f` on one element after the other until it fails; the state stays as it is then. -/
def forEach {σ : Type} (f : α → σ → Except ε Unit × σ) : List α → σ → Except ε Unit × σ
  | [], s => (.ok (), s)
  | x :: rest, s =>
    match f x s with
    | (.error e, s) => (.error e, s)
    | (.ok (), s) => forEach f rest s

/-- The computation does not fail with the error `bad`, and its result has the property. -/
def Avoids (bad : ε) (P : α → Prop) (x : Except ε α) : Prop :=
  x ≠ .error bad ∧ ∀ a, x = .ok a → P a

variable {bad : ε}

theorem avoids_ok {P : α → Prop} {a : α} (h : P a) : Avoids bad P (.ok a : Except ε α) := by
  refine ⟨(fun h => by cases h), fun b hb => ?_⟩
  cases hb
  exact h

theorem avoids_error {e : ε} (P : α → Prop) (h : e ≠ bad) :
    Avoids bad P (.error e : Except ε α) := by
  refine ⟨fun heq => ?_, (fun b hb => by cases hb)⟩
  cases heq
  exact h rfl

theorem Avoids.bind {P : α → Prop} {Q : β → Prop} (hx : Avoids bad P x)
    (hf : ∀ a, P a → Avoids bad Q (f a)) : Avoids bad Q (x >>= f) := by
  cases x with
  | error e => exact avoids_error Q fun h => hx.1 (h ▸ rfl)
  | ok a => exact hf a (hx.2 a rfl)

theorem avoids_foldlM {P : β → Prop} {f : β → α → Except ε β}
    (hf : ∀ b, P b → ∀ a ∈ l, Avoids bad P (f b a)) (hb : P b) : Avoids bad P (l.foldlM f b) := by
  induction l generalizing b with
  | nil => exact avoids_ok hb
  | cons a rest ih =>
    rw [List.foldlM_cons]
    exact (hf b hb a (by simp)).bind fun b' hb' =>
      ih (fun b hb a ha => hf b hb a (by simp [ha])) hb'

/-- A fold whose rounds all succeed, keep an invariant and add parts to the result: it ends with
the parts that were there and those that some element adds. -/
theorem foldlM_adds (Inv : β → Prop) (Has : β → γ → Prop) (Adds : α → γ → Prop)
    {f : β → α → Except ε β} (hstep : ∀ b, Inv b → ∀ a ∈ l, ∃ b', f b a = .ok b' ∧ Inv b' ∧
      ∀ x, Has b' x ↔ Has b x ∨ Adds a x) (hb : Inv b) :
    ∃ b', l.foldlM f b = .ok b' ∧ Inv b' ∧ ∀ x, Has b' x ↔ Has b x ∨ ∃ a ∈ l, Adds a x := by
  induction l generalizing b with
  | nil => exact ⟨b, rfl, hb, by simp⟩
  | cons a rest ih =>
    obtain ⟨middle, hmiddle, hinv, hhas⟩ := hstep b hb a (by simp)
    obtain ⟨last, hlast, hinv', hhas'⟩ :=
      ih (fun b' hb' a' ha' => hstep b' hb' a' (by simp [ha'])) hinv
    refine ⟨last, ?_, hinv', fun x => ?_⟩
    · rw [List.foldlM_cons, hmiddle]
      exact hlast
    · rw [hhas', hhas]
      simp [or_assoc]

/-- A fold whose rounds keep an invariant and add parts to the result: it ends with the parts that
were there and those that some element adds. -/
theorem foldl_adds (Inv : β → Prop) (Has : β → γ → Prop) (Adds : α → γ → Prop) {f : β → α → β}
    (hstep : ∀ b, Inv b → ∀ a ∈ l, Inv (f b a) ∧ ∀ x, Has (f b a) x ↔ Has b x ∨ Adds a x)
    (hb : Inv b) : Inv (l.foldl f b) ∧ ∀ x, Has (l.foldl f b) x ↔ Has b x ∨ ∃ a ∈ l, Adds a x := by
  induction l generalizing b with
  | nil => exact ⟨hb, by simp⟩
  | cons a rest ih =>
    obtain ⟨hinv, hhas⟩ := hstep b hb a (by simp)
    obtain ⟨hinv', hhas'⟩ := ih (fun b' hb' a' ha' => hstep b' hb' a' (by simp [ha'])) hinv
    refine ⟨hinv', fun x => ?_⟩
    rw [List.foldl_cons, hhas', hhas]
    simp [or_assoc]

end N8n.Collections
