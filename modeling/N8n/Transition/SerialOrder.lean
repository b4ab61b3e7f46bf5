import Mathlib.Data.List.Perm.Basic

/-!
# Serial orders

Calls on a shared state are serial when executing them one after the other, in some order, gives the
same replies and the same state. A call that takes effect in one step extends the order by itself.
-/

namespace N8n.Transition

variable {κ ρ τ : Type} (execute : κ → τ → ρ × τ)

/-- Execute calls one after the other: their replies, and the state after them. -/
def executeAll : List κ → τ → List ρ × τ
  | [], t => ([], t)
  | call :: calls, t =>
    let first := execute call t
    let rest := executeAll calls first.2
    (first.1 :: rest.1, rest.2)

/-- Executing the calls in some order gives their replies and leads from one state to the other. -/
def Serial (start : τ) (done : List (κ × ρ)) (t : τ) : Prop :=
  ∃ order : List (κ × ρ), order.Perm done ∧
    executeAll execute (order.map Prod.fst) start = (order.map Prod.snd, t)

variable {execute}

theorem executeAll_append (calls : List κ) (call : κ) (t : τ) :
    executeAll execute (calls ++ [call]) t =
      ((executeAll execute calls t).1 ++ [(execute call (executeAll execute calls t).2).1],
        (execute call (executeAll execute calls t).2).2) := by
  induction calls generalizing t with
  | nil => rfl
  | cons first calls ih =>
    simp only [List.cons_append, executeAll, ih]

variable {start t t' : τ} {done done' : List (κ × ρ)} {call : κ} {reply : ρ}

theorem Serial.nil (start : τ) : Serial execute start [] start := ⟨[], .refl _, rfl⟩

theorem Serial.perm (h : Serial execute start done t) (hperm : done.Perm done') :
    Serial execute start done' t := by
  obtain ⟨order, horder, hexecute⟩ := h
  exact ⟨order, horder.trans hperm, hexecute⟩

theorem Serial.takeEffect (h : Serial execute start done t)
    (hcall : execute call t = (reply, t')) : Serial execute start ((call, reply) :: done) t' := by
  obtain ⟨order, horder, hexecute⟩ := h
  refine ⟨order ++ [(call, reply)], ?_, ?_⟩
  · exact (List.perm_append_singleton _ _).trans (horder.cons _)
  · rw [List.map_append, List.map_singleton, executeAll_append, hexecute]
    simp only [hcall, List.map_append, List.map_cons, List.map_nil]

end N8n.Transition
