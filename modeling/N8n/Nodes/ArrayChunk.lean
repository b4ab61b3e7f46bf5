import Mathlib.Algebra.Order.Field.Rat
import N8n.Collections.Slices

/-!
# The array extension `chunk`

`chunk` of `packages/workflow/src/extensions/array-extensions.ts` cuts an array into chunks of a
size that is an arbitrary number. The sum of two finite numbers is rounded in a way that is left
open, but for small whole numbers and for zero. `chunk_splits_iff` says for which sizes the loop
ends with the chunks that it should yield.
-/

namespace N8n.ArrayExtensions

open Collections

variable {α : Type}

/-- A value of the type `number`. -/
inductive JsNumber where
  | nan
  | infinity
  | negInfinity
  | finite (value : Rat)
  deriving DecidableEq

/-- The sum of finite numbers as floating-point numbers: whole numbers below `2^33` are added
without rounding, and zero is neutral. -/
structure Rounding where
  add : Rat → Rat → Rat
  add_whole : ∀ m n : Nat, m < 2 ^ 32 → n < 2 ^ 32 → add m n = m + n
  zero_add : ∀ x, add 0 x = x

namespace JsNumber

/-- `i + size` -/
def add (rounding : Rounding) : JsNumber → JsNumber → JsNumber
  | .finite x, .finite y => .finite (rounding.add x y)
  | .nan, _ | _, .nan | .infinity, .negInfinity | .negInfinity, .infinity => .nan
  | .infinity, _ | _, .infinity => .infinity
  | .negInfinity, _ | _, .negInfinity => .negInfinity

/-- `i < length` -/
def lt : JsNumber → Nat → Bool
  | .nan, _ | .infinity, _ => false
  | .negInfinity, _ => true
  | .finite x, length => x < length

/-- The position that an argument of `slice` stands for. -/
def position (length : Nat) : JsNumber → Nat
  | .nan | .negInfinity => 0
  | .infinity => length
  | .finite x =>
    let relative := x.num.tdiv x.den
    if relative < 0 then (length + relative).toNat else min relative.toNat length

end JsNumber

/-- `value.slice(start, end)` -/
def arraySlice (value : List α) (first last : JsNumber) : List α :=
  let k := first.position value.length
  (value.drop k).take (last.position value.length - k)

/-- The loop from `i` on, in so many rounds at most. -/
def chunkFrom (rounding : Rounding) (value : List α) (chunkSize : JsNumber) :
    Nat → JsNumber → Option (List (List α))
  | 0, _ => none
  | rounds + 1, i =>
    if i.lt value.length then do
      let chunks ← chunkFrom rounding value chunkSize rounds (i.add rounding chunkSize)
      some (arraySlice value i (i.add rounding chunkSize) :: chunks)
    else some []

/-- `chunk(value, [chunkSize])`; `none` when `chunkSize` is no number. The result is there when the
loop ends within the rounds. -/
def chunk (rounding : Rounding) (value : List α) (chunkSize : Option JsNumber) (rounds : Nat) :
    Except String (Option (List (List α))) :=
  match chunkSize.filter (· ≠ .finite 0) with
  | none => .error "chunk(): expected non-zero numeric arg, e.g. .chunk(5)"
  | some chunkSize => .ok (chunkFrom rounding value chunkSize rounds (.finite 0))

/-- The loop ends, the chunks make up the array, and all but the last have the size. -/
def Splits (rounding : Rounding) (value : List α) (chunkSize : JsNumber) : Prop :=
  ∃ rounds chunks, chunk rounding value (some chunkSize) rounds = .ok (some chunks) ∧
    chunks.flatten = value ∧ ∀ c ∈ chunks.dropLast, chunkSize = .finite c.length

/-- The array is empty, the size is a positive whole number, or one chunk holds the array. -/
def IsWholeOrLong (length : Nat) : JsNumber → Prop
  | .nan | .negInfinity => length = 0
  | .infinity => True
  | .finite x => length = 0 ∨ 0 < x ∧ (x.den = 1 ∨ length ≤ x)

section Splits

variable {rounding : Rounding} {value : List α}

theorem position_natCast (length m : Nat) :
    JsNumber.position length (.finite m) = min m length := by
  simp [JsNumber.position]

theorem position_of_le {length : Nat} {x : Rat} (h : (length : Rat) ≤ x) :
    JsNumber.position length (.finite x) = length := by
  have hnum : 0 ≤ x.num := Rat.num_nonneg.mpr (le_trans (Nat.cast_nonneg length) h)
  have hfloor : (length : Int) ≤ x.num.tdiv x.den := by
    rw [Int.tdiv_eq_ediv_of_nonneg hnum, ← Rat.floor_def, Rat.le_floor_iff]
    exact_mod_cast h
  rw [JsNumber.position]
  rw [if_neg (by omega), Nat.min_eq_right (by omega)]

theorem arraySlice_whole {n k : Nat} (hk : k * n < value.length) :
    arraySlice value (.finite (k * n : Nat)) (.finite (k * n + n : Nat)) = slice value n k := by
  rw [arraySlice, position_natCast, position_natCast, Nat.min_eq_left (Nat.le_of_lt hk), slice]
  rw [List.take_eq_take_iff, List.length_drop]
  omega

variable (rounding) in
theorem chunkFrom_whole {n : Nat} (hn : 0 < n) (hlt : n < value.length)
    (hlength : value.length < 2 ^ 32) (left k : Nat) (hleft : value.length - k * n ≤ left) :
    ∃ chunks, chunkFrom rounding value (.finite n) (left + 1) (.finite (k * n : Nat)) =
        some chunks ∧ chunks.flatten = value.drop (k * n) ∧
      (value.length ≤ k * n → chunks = []) ∧ ∀ c ∈ chunks.dropLast, c.length = n := by
  rw [chunkFrom]
  by_cases hmore : k * n < value.length
  · have hround : JsNumber.lt (.finite (k * n : Nat)) value.length = true :=
      decide_eq_true (Nat.cast_lt.mpr hmore)
    have hnext : JsNumber.add rounding (.finite (k * n : Nat)) (.finite n) =
        .finite ((k + 1) * n : Nat) := by
      rw [JsNumber.add, rounding.add_whole _ _ (by omega) (by omega), Nat.succ_mul, Nat.cast_add]
    rw [if_pos hround, hnext]
    cases left with
    | zero => omega
    | succ left =>
      obtain ⟨chunks, hrest, hflatten, hnil, hsizes⟩ :=
        chunkFrom_whole hn hlt hlength left (k + 1) (by rw [Nat.succ_mul]; omega)
      rw [hrest, Nat.succ_mul, arraySlice_whole hmore]
      refine ⟨_, rfl, ?_, fun hdone => absurd hmore (Nat.not_lt.mpr hdone), fun c hc => ?_⟩
      · rw [List.flatten_cons, hflatten, slice, Nat.succ_mul, ← List.drop_drop,
          List.take_append_drop]
      · cases chunks with
        | nil => cases hc
        | cons next rest =>
          rw [List.dropLast_cons_cons] at hc
          rcases List.mem_cons.mp hc with rfl | hc
          · -- A chunk that is not the last one ends within the array
            have hwithin : (k + 1) * n < value.length :=
              Nat.not_le.mp fun hdone => by cases hnil hdone
            rw [Nat.succ_mul] at hwithin
            rw [slice, List.length_take, List.length_drop]
            omega
          · exact hsizes c hc
  · have hround : ¬ JsNumber.lt (.finite (k * n : Nat)) value.length = true := by
      simpa only [JsNumber.lt, decide_eq_true_eq, Nat.cast_lt] using hmore
    rw [if_neg hround]
    refine ⟨[], rfl, ?_, fun _ => rfl, fun c hc => by cases hc⟩
    rw [List.drop_of_length_le (Nat.not_lt.mp hmore)]
    rfl

theorem first_add (chunkSize : JsNumber) :
    JsNumber.add rounding (.finite 0) chunkSize = chunkSize := by
  cases chunkSize with
  | nan | infinity | negInfinity => rfl
  | finite x => exact congrArg JsNumber.finite (rounding.zero_add x)

theorem chunkFrom_zero {chunkSize : JsNumber} {rounds : Nat} {chunks : List (List α)}
    (hvalue : value ≠ [])
    (h : chunkFrom rounding value chunkSize rounds (.finite 0) = some chunks) :
    ∃ rounds' rest, chunkFrom rounding value chunkSize (rounds' + 1) chunkSize = some rest ∧
      chunks = arraySlice value (.finite 0) chunkSize :: rest := by
  cases rounds with
  | zero => cases h
  | succ rounds =>
    have hround : JsNumber.lt (.finite 0) value.length = true :=
      decide_eq_true (by exact_mod_cast List.length_pos_iff.mpr hvalue)
    rw [chunkFrom, if_pos hround, first_add] at h
    obtain ⟨rest, hrest, heq⟩ := Option.bind_eq_some_iff.mp h
    cases heq
    cases rounds with
    | zero => cases hrest
    | succ rounds => exact ⟨rounds, rest, hrest, rfl⟩

/-- `chunk` splits an array, with a size that it accepts, exactly when the array is empty, the size
is a positive whole number, or the size reaches to the end of the array. -/
theorem chunk_splits_iff (rounding : Rounding) {value : List α} (hlength : value.length < 2 ^ 32)
    {chunkSize : JsNumber} (haccepted : chunkSize ≠ .finite 0) :
    Splits rounding value chunkSize ↔ IsWholeOrLong value.length chunkSize := by
  have hchunk : ∀ rounds, chunk rounding value (some chunkSize) rounds =
      .ok (chunkFrom rounding value chunkSize rounds (.finite 0)) := by
    intro rounds
    rw [chunk, Option.filter_some, if_pos (decide_eq_true haccepted)]
  simp only [Splits, hchunk, Except.ok.injEq]
  by_cases hvalue : value = []
  · subst hvalue
    have hempty : IsWholeOrLong ([] : List α).length chunkSize := by
      cases chunkSize with
      | nan | negInfinity => rfl
      | infinity => trivial
      | finite x => exact .inl rfl
    exact iff_of_true ⟨1, [], rfl, rfl, fun c hc => by cases hc⟩ hempty
  have hpos : 0 < value.length := List.length_pos_iff.mpr hvalue
  constructor
  · rintro ⟨rounds, chunks, hchunks, hflatten, hsizes⟩
    obtain ⟨rounds', rest, hrest, rfl⟩ := chunkFrom_zero hvalue hchunks
    rw [chunkFrom] at hrest
    -- Where the loop goes on, the first chunk is not the last one
    have hgoesOn : chunkSize.lt value.length = true →
        ∃ c : List α, chunkSize = .finite c.length := by
      intro hlt
      rw [if_pos hlt] at hrest
      obtain ⟨others, -, heq⟩ := Option.bind_eq_some_iff.mp hrest
      cases heq
      exact ⟨_, hsizes _ (.head _)⟩
    cases chunkSize with
    | infinity => trivial
    | nan =>
      cases hrest
      simp only [arraySlice, JsNumber.position, Nat.zero_sub, List.take_zero,
        List.flatten_cons, List.flatten_nil, List.append_nil] at hflatten
      exact absurd hflatten.symm hvalue
    | negInfinity =>
      obtain ⟨c, hc⟩ := hgoesOn rfl
      cases hc
    | finite x =>
      by_cases hlt : x < value.length
      · obtain ⟨c, hc⟩ := hgoesOn (decide_eq_true hlt)
        cases hc
        refine .inr ⟨lt_of_le_of_ne (Nat.cast_nonneg _) fun hzero => haccepted ?_, .inl rfl⟩
        rw [← hzero]
      · have hle := not_lt.mp hlt
        exact .inr ⟨lt_of_lt_of_le (Nat.cast_pos.mpr hpos) hle, .inr hle⟩
  · intro hcondition
    -- One chunk holds the array when the loop ends after it
    have hone : chunkSize.lt value.length = false →
        chunkSize.position value.length = value.length →
        ∃ rounds chunks, chunkFrom rounding value chunkSize rounds (.finite 0) = some chunks ∧
          chunks.flatten = value ∧ ∀ c ∈ chunks.dropLast, chunkSize = .finite c.length := by
      intro hlt hposition
      refine ⟨2, [arraySlice value (.finite 0) chunkSize], ?_, ?_, fun c hc => by cases hc⟩
      · have hround : JsNumber.lt (.finite 0) value.length = true :=
          decide_eq_true (Nat.cast_pos.mpr hpos)
        rw [chunkFrom, if_pos hround, first_add, chunkFrom, hlt]
        rfl
      · have hstart := position_natCast value.length 0
        rw [Nat.cast_zero, Nat.zero_min] at hstart
        simp [arraySlice, hposition, hstart]
    cases chunkSize with
    | nan | negInfinity => exact absurd hcondition (Nat.ne_of_gt hpos)
    | infinity => exact hone rfl rfl
    | finite x =>
      obtain hzero | ⟨hx, hwhole⟩ := hcondition
      · exact absurd hzero (Nat.ne_of_gt hpos)
      by_cases hlt : x < value.length
      · have hden : x.den = 1 := hwhole.resolve_right (not_le.mpr hlt)
        obtain ⟨n, rfl⟩ : ∃ n : Nat, x = n := by
          have hnum : (x.num.toNat : Int) = x.num :=
            Int.toNat_of_nonneg (Rat.num_nonneg.mpr hx.le)
          refine ⟨x.num.toNat, ((Rat.den_eq_one_iff x).mp hden).symm.trans ?_⟩
          exact_mod_cast congrArg (Int.cast (R := Rat)) hnum.symm
        have hn := Nat.cast_pos.mp hx
        obtain ⟨chunks, hchunks, hflatten, -, hsizes⟩ := chunkFrom_whole rounding hn
          (Nat.cast_lt.mp hlt) hlength value.length 0 (Nat.sub_le _ _)
        rw [Nat.zero_mul] at hchunks hflatten
        exact ⟨_, chunks, hchunks, hflatten, fun c hc => by rw [hsizes c hc]⟩
      · have hle := not_lt.mp hlt
        exact hone (decide_eq_false hlt) (position_of_le hle)

/-- Sums without rounding. -/
def exactSum : Rounding := ⟨(· + ·), fun _ _ _ _ => rfl, Rat.zero_add⟩

theorem two_by_one_splits : Splits exactSum [1, 2] (.finite 1) :=
  (chunk_splits_iff exactSum (by decide) (by decide)).mpr (.inr ⟨by decide, .inl rfl⟩)

/-- The elements are lost when the size is no number to count with. -/
theorem nan_loses_elements :
    ¬ ∀ (value : List Nat) (chunkSize : JsNumber), chunkSize ≠ .finite 0 →
      Splits exactSum value chunkSize := by
  intro h
  obtain ⟨rounds, chunks, hchunks, hflatten, -⟩ := h [1, 2] .nan (by decide)
  obtain ⟨rounds, rest, hrest, rfl⟩ := chunkFrom_zero (by decide) (Except.ok.inj hchunks)
  cases hrest
  cases hflatten

end Splits

end N8n.ArrayExtensions
