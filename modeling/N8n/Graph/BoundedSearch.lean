import Mathlib.Data.List.Count
import Mathlib.Data.List.Induction
import Mathlib.Data.List.Nodup

/-!
# Searching to a bounded depth

A recursive search along all branches that do not come back to a node on the way to this one, at
most `limit` steps deep. What is found below a successor is put in front of what was found before,
once each, but the successor itself is put in front without a look at the list. The search finds
what is reached within the limit (`mem_boundedSearch_iff`), with repetitions when a successor
was reached before (`nodup_boundedSearch_iff`).
-/

namespace N8n.Graph

variable {ν : Type}

/-! ## Walks -/

/-- A number of steps that a limit allows. -/
def Within (limit : Option Nat) (n : Nat) : Prop := ∀ d ∈ limit, n ≤ d

/-- A walk of `n` steps that does not go to a node of `avoid`. -/
inductive WalkOutside (next : ν → List ν) (avoid : List ν) : Nat → ν → ν → Prop where
  | refl (v : ν) : WalkOutside next avoid 0 v v
  | step {n : Nat} {v x y : ν} : x ∈ next v → x ∉ avoid → WalkOutside next avoid n x y →
      WalkOutside next avoid (n + 1) v y

variable {next : ν → List ν}

variable {limit : Option Nat} {n : Nat}

theorem within_succ_iff (hlimit : limit ≠ some 0) :
    Within limit (n + 1) ↔ Within (limit.map (· - 1)) n := by
  cases limit with
  | none => simp [Within]
  | some d =>
    have hd : d ≠ 0 := fun h => hlimit (h ▸ rfl)
    simp only [Within, Option.map_some, Option.mem_some_iff, forall_eq']
    omega

theorem Within.mono {m : Nat} (h : Within limit n) (hle : m ≤ n) : Within limit m :=
  fun d hd => Nat.le_trans hle (h d hd)

variable {avoid : List ν} {v y : ν}

theorem WalkOutside.mono {avoid' : List ν} (hsub : avoid' ⊆ avoid)
    (h : WalkOutside next avoid n v y) : WalkOutside next avoid' n v y := by
  induction h with
  | refl v => exact .refl v
  | step hnext hout _ ih => exact .step hnext (fun hx => hout (hsub hx)) ih

theorem WalkOutside.end_outside (h : WalkOutside next avoid (n + 1) v y) : y ∉ avoid := by
  generalize hm : n + 1 = m at h
  induction h generalizing n with
  | refl v => cases hm
  | @step m v x y _ hout hwalk ih =>
    cases hwalk with
    | refl => exact hout
    | step _ _ _ => exact ih rfl

theorem WalkOutside.cut {avoid : List ν} {n : Nat} {u v y : ν}
    (h : WalkOutside next avoid n u y) (hne : y ≠ v) :
    WalkOutside next (avoid ++ [v]) n u y ∨
      ∃ m ≤ n, WalkOutside next (avoid ++ [v]) m v y := by
  induction h with
  | refl y => exact .inl (.refl y)
  | @step n u x y hnext hout _ ih =>
    rcases ih hne with hwalk | ⟨m, hm, hwalk⟩
    · by_cases hx : x = v
      · subst hx
        exact .inr ⟨n, by omega, hwalk⟩
      · refine .inl (.step hnext ?_ hwalk)
        simp [hout, hx]
    · exact .inr ⟨m, by omega, hwalk⟩

theorem exists_walk_iff :
    (∃ n, Within limit (n + 1) ∧ WalkOutside next (avoid ++ [v]) (n + 1) v y) ↔
      y ≠ v ∧ ∃ n, Within limit (n + 1) ∧ WalkOutside next avoid (n + 1) v y := by
  refine ⟨fun ⟨n, hn, hwalk⟩ => ⟨?_, n, hn, hwalk.mono (List.subset_append_left ..)⟩,
    fun ⟨hne, n, hn, hwalk⟩ => ?_⟩
  · rintro rfl
    exact hwalk.end_outside (by simp)
  · rcases hwalk.cut hne with hcut | ⟨m, hm, hcut⟩
    · exact ⟨n, hn, hcut⟩
    · cases m with
      | zero =>
        cases hcut
        exact absurd rfl hne
      | succ m => exact ⟨m, hn.mono hm, hcut⟩

/-! ## Fuel -/

/-- The nodes with successors are among `keys`, and there is fuel for those that are not checked
yet. -/
structure Fuelled (next : ν → List ν) (keys : List ν) (fuel : Nat) (checked : List ν) : Prop where
  hasKey : ∀ v, next v ≠ [] → v ∈ keys
  nodup : checked.Nodup
  subset : checked ⊆ keys
  enough : keys.length < fuel + checked.length

theorem Fuelled.check {keys checked : List ν} {fuel : Nat}
    (h : Fuelled next keys (fuel + 1) checked) {v : ν} (hv : next v ≠ []) (hfresh : v ∉ checked) :
    Fuelled next keys fuel (checked ++ [v]) where
  hasKey := h.hasKey
  nodup := List.nodup_append.mpr ⟨h.nodup, List.nodup_singleton _, fun a ha b hb heq => by
    rw [List.mem_singleton.mp hb] at heq
    exact hfresh (heq ▸ ha)⟩
  subset := List.append_subset.mpr ⟨h.subset, by simpa using h.hasKey v hv⟩
  enough := by
    have := h.enough
    rw [List.length_append, List.length_singleton]
    omega

theorem Fuelled.pos {keys checked : List ν} (h : Fuelled next keys 0 checked) : False := by
  have hle := h.nodup.length_le_of_subset h.subset
  have := h.enough
  omega

variable [DecidableEq ν]

/-! ## Putting nodes in front -/

/-- Put a node in front, and take its first occurrence out if there is one. -/
def moveToFront (found : List ν) (x : ν) : List ν := x :: found.erase x

/-- Put nodes in front, in their order. -/
def addFront (found names : List ν) : List ν := names.reverse.foldl moveToFront found

variable {found : List ν}

theorem mem_moveToFront_iff {x : ν} : y ∈ moveToFront found x ↔ y = x ∨ y ∈ found := by
  rw [moveToFront, List.mem_cons]
  by_cases h : y = x
  · simp [h]
  · rw [List.mem_erase_of_ne h]

theorem addFront_cons (found : List ν) (x : ν) (names : List ν) :
    addFront found (x :: names) = moveToFront (addFront found names) x := by
  rw [addFront, addFront, List.reverse_cons, List.foldl_append]
  rfl

theorem mem_addFront_iff {names : List ν} : y ∈ addFront found names ↔ y ∈ names ∨ y ∈ found := by
  induction names with
  | nil => simp [addFront]
  | cons x names ih => rw [addFront_cons, mem_moveToFront_iff, ih, List.mem_cons, or_assoc]

theorem nodup_moveToFront (h : found.Nodup) (x : ν) : (moveToFront found x).Nodup :=
  List.nodup_cons.mpr ⟨fun hx => absurd rfl (h.mem_erase_iff.mp hx).1, h.erase x⟩

theorem nodup_addFront (h : found.Nodup) (names : List ν) : (addFront found names).Nodup := by
  induction names with
  | nil => exact h
  | cons x names ih =>
    rw [addFront_cons]
    exact nodup_moveToFront ih x

theorem count_le_addFront (found names : List ν) (y : ν) :
    found.count y ≤ (addFront found names).count y := by
  induction names with
  | nil => exact Nat.le_refl _
  | cons x names ih =>
    rw [addFront_cons, moveToFront, List.count_cons, List.count_erase]
    by_cases hxy : x = y
    · simp only [hxy, beq_self_eq_true, if_true]
      omega
    · simp only [beq_iff_eq, hxy, if_false, Nat.add_zero]
      exact ih

/-! ## The search -/

/-- Take up the successor `x`, below which `below` is found, unless it was checked. -/
def takeUp (checked : List ν) (below : ν → List ν) (found : List ν) (x : ν) : List ν :=
  if x ∈ checked then found else addFront (x :: found) (below x)

/-- The nodes found from `v`, at most `limit` steps away if there is a limit. -/
def boundedSearch (next : ν → List ν) : Nat → ν → Option Nat → List ν → List ν
  | 0, _, _, _ => []
  | fuel + 1, v, limit, checked =>
    if limit = some 0 ∨ v ∈ checked then []
    else
      (next v).foldl (takeUp (checked ++ [v]) fun x =>
        boundedSearch next fuel x (limit.map (· - 1)) (checked ++ [v])) []

/-! ## What is found -/

variable {checked l : List ν} {below : ν → List ν}

theorem mem_foldl_takeUp_iff :
    y ∈ l.foldl (takeUp checked below) found ↔
      y ∈ found ∨ ∃ x ∈ l, x ∉ checked ∧ (y = x ∨ y ∈ below x) := by
  induction l generalizing found with
  | nil => simp
  | cons x l ih =>
    rw [List.foldl_cons, ih, takeUp]
    by_cases hx : x ∈ checked
    · simp [hx]
    · rw [if_neg hx, mem_addFront_iff, List.mem_cons]
      have hor : (y ∈ below x ∨ y = x ∨ y ∈ found) ↔ y ∈ found ∨ y = x ∨ y ∈ below x := by tauto
      simp only [List.exists_mem_cons_iff, hx, not_false_eq_true, true_and, hor, or_assoc]

theorem exists_below_iff (hlimit : limit ≠ some 0)
    (hbelow : ∀ x ∈ l, x ∉ avoid → ∀ y, y ∈ below x ↔ y ≠ x ∧
      ∃ n, Within (limit.map (· - 1)) (n + 1) ∧ WalkOutside next avoid (n + 1) x y) :
    (∃ x ∈ l, x ∉ avoid ∧ (y = x ∨ y ∈ below x)) ↔
      ∃ x ∈ l, x ∉ avoid ∧ ∃ n, Within limit (n + 1) ∧ WalkOutside next avoid n x y := by
  refine exists_congr fun x => and_congr_right fun hx => and_congr_right fun hout => ?_
  rw [hbelow x hx hout]
  constructor
  · rintro (rfl | ⟨-, n, hn, hwalk⟩)
    · refine ⟨0, ?_, .refl _⟩
      cases limit with
      | none => simp [Within]
      | some d =>
        have hd : d ≠ 0 := fun h => hlimit (h ▸ rfl)
        simpa [Within] using Nat.one_le_iff_ne_zero.mpr hd
    · exact ⟨n + 1, (within_succ_iff hlimit).mpr hn, hwalk⟩
  · rintro ⟨n, hn, hwalk⟩
    by_cases hy : y = x
    · exact .inl hy
    · cases n with
      | zero =>
        cases hwalk
        exact absurd rfl hy
      | succ n => exact .inr ⟨hy, n, (within_succ_iff hlimit).mp hn, hwalk⟩

theorem mem_boundedSearch_iff {keys : List ν} {fuel : Nat} (h : Fuelled next keys fuel checked)
    (hfresh : v ∉ checked) :
    y ∈ boundedSearch next fuel v limit checked ↔
      y ≠ v ∧ ∃ n, Within limit (n + 1) ∧ WalkOutside next checked (n + 1) v y := by
  induction fuel generalizing v y limit checked with
  | zero => exact h.pos.elim
  | succ fuel ih =>
    rw [boundedSearch]
    by_cases hlimit : limit = some 0
    · simp [hlimit, Within]
    · rw [if_neg (not_or.mpr ⟨hlimit, hfresh⟩), mem_foldl_takeUp_iff, ← exists_walk_iff]
      have hbelow : ∀ x ∈ next v, x ∉ checked ++ [v] → ∀ y,
          y ∈ boundedSearch next fuel x (limit.map (· - 1)) (checked ++ [v]) ↔ y ≠ x ∧
            ∃ n, Within (limit.map (· - 1)) (n + 1) ∧
              WalkOutside next (checked ++ [v]) (n + 1) x y :=
        fun x hx hout y => ih (h.check (List.ne_nil_of_mem hx) hfresh) hout
      rw [exists_below_iff hlimit hbelow]
      simp only [List.not_mem_nil, false_or]
      constructor
      · rintro ⟨x, hx, hout, n, hn, hwalk⟩
        exact ⟨n, hn, .step hx hout hwalk⟩
      · rintro ⟨n, hn, hwalk⟩
        cases hwalk with
        | step hx hout hwalk => exact ⟨_, hx, hout, n, hn, hwalk⟩

/-! ## Repetitions -/

theorem nodup_takeUp_iff {x : ν} :
    (takeUp checked below found x).Nodup ↔ found.Nodup ∧ (x ∉ checked → x ∉ found) := by
  rw [takeUp]
  by_cases hx : x ∈ checked
  · simp [hx]
  · rw [if_neg hx]
    refine ⟨fun hnodup => ?_, fun ⟨hnodup, hfresh⟩ => ?_⟩
    · have hcons : (x :: found).Nodup := List.nodup_iff_count_le_one.mpr fun y =>
        Nat.le_trans (count_le_addFront ..) (List.nodup_iff_count_le_one.mp hnodup y)
      exact ⟨hcons.of_cons, fun _ => (List.nodup_cons.mp hcons).1⟩
    · exact nodup_addFront (List.nodup_cons.mpr ⟨hfresh hx, hnodup⟩) _

/-- The loop over successors repeats a node when it takes up one that it has found before. -/
theorem nodup_foldl_takeUp_iff :
    (l.foldl (takeUp checked below) []).Nodup ↔
      ∀ pre x post, l = pre ++ x :: post → x ∉ checked →
        x ∉ pre.foldl (takeUp checked below) [] := by
  induction l using List.reverseRecOn with
  | nil => simp
  | append_singleton l a ih =>
    rw [List.foldl_append, List.foldl_cons, List.foldl_nil, nodup_takeUp_iff, ih]
    constructor
    · rintro ⟨hall, hlast⟩ pre x post heq
      -- the last node, or one of those before it
      rcases List.eq_nil_or_concat post with rfl | ⟨post, b, rfl⟩
      · obtain ⟨rfl, hx⟩ := List.append_inj' heq rfl
        cases hx
        exact hlast
      · rw [List.concat_eq_append, ← List.cons_append, ← List.append_assoc] at heq
        exact hall pre x post (List.append_inj' heq rfl).1
    · intro hall
      refine ⟨fun pre x post heq => ?_, hall l a [] rfl⟩
      exact hall pre x (post ++ [a]) (by rw [heq, List.append_assoc, List.cons_append])

/-- No successor of `start` other than `start` itself is reached within the limit by way of a
successor before it. -/
def NoRepeats (next : ν → List ν) (start : ν) (limit : Option Nat) : Prop :=
  ∀ pre x post, next start = pre ++ x :: post → x ≠ start → ∀ y ∈ pre, y ≠ start →
    ∀ n, Within limit (n + 1) → ¬ WalkOutside next [start] n y x

theorem nodup_boundedSearch_iff {keys : List ν} {fuel : Nat} {start : ν}
    (h : Fuelled next keys fuel []) (hlimit : limit ≠ some 0) :
    (boundedSearch next fuel start limit []).Nodup ↔ NoRepeats next start limit := by
  cases fuel with
  | zero => exact h.pos.elim
  | succ fuel =>
    rw [boundedSearch, if_neg (by simpa using hlimit), nodup_foldl_takeUp_iff, List.nil_append]
    refine forall_congr' fun pre => forall_congr' fun x => forall_congr' fun post =>
      imp_congr_right fun heq => ?_
    have hbelow : ∀ y ∈ pre, y ∉ [start] → ∀ z,
        z ∈ boundedSearch next fuel y (limit.map (· - 1)) [start] ↔ z ≠ y ∧
          ∃ n, Within (limit.map (· - 1)) (n + 1) ∧ WalkOutside next [start] (n + 1) y z := by
      refine fun y _ hout z => mem_boundedSearch_iff (h.check ?_ List.not_mem_nil) hout
      simp [heq]
    rw [mem_foldl_takeUp_iff, exists_below_iff hlimit hbelow]
    simp only [List.not_mem_nil, false_or, List.mem_singleton, not_exists, not_and]

end N8n.Graph
