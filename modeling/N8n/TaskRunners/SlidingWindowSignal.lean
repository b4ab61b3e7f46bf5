import Mathlib.Data.List.Induction
import N8n.Transition.Runs

/-!
# The sliding window of a signal

`SlidingWindowSignal` of `packages/cli/src/task-runners/sliding-window-signal.ts` remembers the last
signal of an emitter. A call of `getSignal` returns it when it is recent enough, and otherwise waits
for the next one until a timer fires, which is set without a delay. `window_exact_iff` says for
which runs a call resolves to a signal of its window: for those in which no such signal comes after
the timer.
-/

namespace N8n.TaskRunners.SlidingWindow

open Transition

/-- A call of `getSignal`. A call that waits has a timer, which fires at some time from `timer`
on. -/
inductive Call (σ : Type) where
  | waiting (timer : Int)
  | resolved (signal : Option σ)
  deriving DecidableEq, Repr

structure SignalState (σ : Type) where
  lastSignal : Option σ := none
  lastSignalTime : Int := 0
  calls : List (Call σ) := []
  deriving DecidableEq, Repr

/-- What happens: a signal is emitted, `getSignal` is called, or the timer of a call fires. -/
inductive Event (σ : Type) where
  | signal (signal : σ)
  | getSignal
  | timeout (call : Nat)
  deriving DecidableEq, Repr

/-- What happens at which time, in milliseconds. -/
abbrev TimedEvent (σ : Type) := Int × Event σ

/-- The delay of `setTimeout` when none is given. -/
def defaultDelay : Int := 1

variable {σ : Type}

/-- The listener of a call that waits. -/
def Call.onExit (signal : σ) : Call σ → Call σ
  | .waiting _ => .resolved (some signal)
  | .resolved result => .resolved result

/-- The call of `getSignal` at a time. -/
def SignalState.getSignal (s : SignalState σ) (windowSizeInMs now : Int) : Call σ :=
  if now - s.lastSignalTime ≤ windowSizeInMs then .resolved s.lastSignal
  else .waiting (now + defaultDelay)

def step (windowSizeInMs : Int) (s : SignalState σ) : TimedEvent σ → Option (SignalState σ)
  | (now, .signal signal) => some {
      lastSignal := some signal
      lastSignalTime := now
      calls := s.calls.map (Call.onExit signal) }
  | (now, .getSignal) => some { s with calls := s.calls ++ [s.getSignal windowSizeInMs now] }
  | (now, .timeout call) =>
      match s.calls[call]? with
      | some (.waiting timer) =>
          if timer ≤ now then some { s with calls := s.calls.set call (.resolved none) } else none
      | _ => none

/-! ## The signals of a run -/

/-- The signals that are registered, with their times. -/
def signals (events : List (TimedEvent σ)) : List (Int × σ) :=
  events.filterMap fun e => match e.2 with
    | .signal signal => some (e.1, signal)
    | _ => none

/-- How many calls were made, which is the number of the next one. -/
def callCount (events : List (TimedEvent σ)) : Nat :=
  events.countP fun e => match e.2 with
    | .getSignal => true
    | _ => false

def isTimeout (call : Nat) (e : TimedEvent σ) : Bool :=
  match e.2 with
  | .timeout other => decide (other = call)
  | _ => false

/-- What happens until the timer of a call fires. -/
def untilTimeout (call : Nat) (events : List (TimedEvent σ)) : List (TimedEvent σ) :=
  events.takeWhile fun e => !isTimeout call e

variable (windowSizeInMs : Int)

/-- The signals before the call in its window, and those after the call. -/
def pastSignals (now : Int) (before : List (TimedEvent σ)) : List (Int × σ) :=
  (signals before).filter fun x => decide (now - windowSizeInMs ≤ x.1)

def futureSignals (now : Int) (after : List (TimedEvent σ)) : List (Int × σ) :=
  (signals after).filter fun x => decide (x.1 ≤ now + windowSizeInMs)

/-- The result of a call is the latest signal in the window before it, or else the first one in the
window after it, and it is null only if there is none. -/
structure Exact (now : Int) (before after : List (TimedEvent σ)) (result : Option σ) : Prop where
  latest : ∀ x, (pastSignals windowSizeInMs now before).getLast? = some x → result = some x.2
  first : pastSignals windowSizeInMs now before = [] →
    ∀ x, (futureSignals windowSizeInMs now after).head? = some x → result = some x.2
  missing : result = none → pastSignals windowSizeInMs now before = [] ∧
    futureSignals windowSizeInMs now after = []

/-- A signal in the window comes before the call, or no signal comes in the window after it, or the
first one comes while the call waits: before its timer fires, where the call does wait. A call
returns at once as well when there was no signal yet and its window starts at or before time zero,
which is taken for the time of a last signal. -/
def InTime (now : Int) (before after : List (TimedEvent σ)) : Prop :=
  pastSignals windowSizeInMs now before ≠ [] ∨ futureSignals windowSizeInMs now after = [] ∨
    (signals before ≠ [] ∨ windowSizeInMs < now) ∧
      signals (untilTimeout (callCount before) after) ≠ []

/-! ## The state after a run -/

variable {windowSizeInMs} {s s' : SignalState σ} {events before after : List (TimedEvent σ)}
variable {call : Nat} {now : Int}

/-- The last signal is remembered with its time. -/
def Remembers (s : SignalState σ) (registered : List (Int × σ)) : Prop :=
  s.lastSignal = registered.getLast?.map Prod.snd ∧
    s.lastSignalTime = (registered.getLast?.map Prod.fst).getD 0

theorem signals_append (events more : List (TimedEvent σ)) :
    signals (events ++ more) = signals events ++ signals more :=
  List.filterMap_append

theorem step_timeout : step windowSizeInMs s (now, .timeout call) = some s' ↔
    ∃ timer, s.calls[call]? = some (.waiting timer) ∧ timer ≤ now ∧
      s' = { s with calls := s.calls.set call (.resolved none) } := by
  show (match s.calls[call]? with
    | some (.waiting timer) =>
        if timer ≤ now then some { s with calls := s.calls.set call (.resolved none) } else none
    | _ => none) = some s' ↔ _
  cases hcall : s.calls[call]? with
  | none => simp
  | some c =>
      cases c with
      | resolved result => simp
      | waiting timer => simp [eq_comm]

theorem step_remembers {e : TimedEvent σ} (h : step windowSizeInMs s e = some s')
    {registered : List (Int × σ)} (hs : Remembers s registered) :
    Remembers s' (registered ++ signals [e]) ∧
      s'.calls.length = s.calls.length + callCount [e] := by
  obtain ⟨now, event⟩ := e
  cases event with
  | signal signal =>
      cases h
      refine ⟨?_, List.length_map _⟩
      show Remembers _ (registered ++ [(now, signal)])
      unfold Remembers
      rw [List.getLast?_concat]
      exact ⟨rfl, rfl⟩
  | getSignal =>
      cases h
      refine ⟨?_, List.length_append⟩
      show Remembers _ (registered ++ [])
      rw [List.append_nil]
      exact hs
  | timeout call =>
      obtain ⟨timer, -, -, rfl⟩ := step_timeout.mp h
      refine ⟨?_, List.length_set⟩
      show Remembers _ (registered ++ [])
      rw [List.append_nil]
      exact hs

theorem callCount_cons (e : TimedEvent σ) (events : List (TimedEvent σ)) :
    callCount (e :: events) = callCount [e] + callCount events := by
  rw [← List.singleton_append, callCount, List.countP_append]
  rfl

theorem run_remembers (h : run (step windowSizeInMs) s events = some s')
    {registered : List (Int × σ)} (hs : Remembers s registered) :
    Remembers s' (registered ++ signals events) ∧
      s'.calls.length = s.calls.length + callCount events := by
  induction events generalizing s registered with
  | nil =>
      cases h
      show Remembers _ (registered ++ []) ∧ _
      rw [List.append_nil]
      exact ⟨hs, rfl⟩
  | cons e events ih =>
      obtain ⟨next, hnext, h⟩ := run_cons_eq_some.mp h
      obtain ⟨hmemory, hlength⟩ := step_remembers hnext hs
      obtain ⟨hmemory, hlength'⟩ := ih h hmemory
      rw [List.append_assoc, ← signals_append] at hmemory
      rw [callCount_cons]
      exact ⟨hmemory, by omega⟩

theorem step_resolved {e : TimedEvent σ} (h : step windowSizeInMs s e = some s')
    {result : Option σ} (hcall : s.calls[call]? = some (.resolved result)) :
    s'.calls[call]? = some (.resolved result) := by
  obtain ⟨now, event⟩ := e
  cases event with
  | signal signal =>
      cases h
      show (s.calls.map _)[call]? = _
      rw [List.getElem?_map, hcall]
      rfl
  | getSignal =>
      cases h
      obtain ⟨hlt, -⟩ := List.getElem?_eq_some_iff.mp hcall
      show (s.calls ++ _)[call]? = _
      rw [List.getElem?_append_left hlt, hcall]
  | timeout other =>
      obtain ⟨timer, hother, -, rfl⟩ := step_timeout.mp h
      have hne : other ≠ call := by
        intro heq
        rw [heq, hcall] at hother
        cases hother
      show (s.calls.set _ _)[call]? = _
      rw [List.getElem?_set_ne hne, hcall]

theorem run_resolved (h : run (step windowSizeInMs) s events = some s') {result : Option σ}
    (hcall : s.calls[call]? = some (.resolved result)) :
    s'.calls[call]? = some (.resolved result) := by
  induction events generalizing s with
  | nil => cases h; exact hcall
  | cons e events ih =>
      obtain ⟨next, hnext, h⟩ := run_cons_eq_some.mp h
      exact ih h (step_resolved hnext hcall)

/-- The outcome of a call that waits: the first signal before its timer fires, or null. -/
def outcome (call : Nat) (timer : Int) (events : List (TimedEvent σ)) : Call σ :=
  match (signals (untilTimeout call events)).head? with
  | some x => .resolved (some x.2)
  | none => if events.any (isTimeout call) then .resolved none else .waiting timer

theorem run_waiting {timer : Int} (h : run (step windowSizeInMs) s events = some s')
    (hcall : s.calls[call]? = some (.waiting timer)) :
    s'.calls[call]? = some (outcome call timer events) := by
  induction events generalizing s with
  | nil => cases h; exact hcall
  | cons e events ih =>
      obtain ⟨next, hnext, h⟩ := run_cons_eq_some.mp h
      obtain ⟨now, event⟩ := e
      cases event with
      | signal signal =>
          cases hnext
          refine run_resolved h ?_
          show (s.calls.map _)[call]? = _
          rw [List.getElem?_map, hcall]
          rfl
      | getSignal =>
          cases hnext
          obtain ⟨hlt, -⟩ := List.getElem?_eq_some_iff.mp hcall
          refine ih h ?_
          show (s.calls ++ _)[call]? = _
          rw [List.getElem?_append_left hlt, hcall]
      | timeout other =>
          obtain ⟨-, -, -, rfl⟩ := step_timeout.mp hnext
          by_cases heq : other = call
          · obtain ⟨hlt, -⟩ := List.getElem?_eq_some_iff.mp hcall
            have hset : (s.calls.set other (.resolved none))[call]? = some (.resolved none) := by
              rw [heq, List.getElem?_set_self hlt]
            rw [run_resolved h hset]
            simp [outcome, untilTimeout, isTimeout, heq, signals]
          · have hset : (s.calls.set other (.resolved none))[call]? = some (.waiting timer) := by
              rw [List.getElem?_set_ne heq, hcall]
            rw [ih h hset]
            have hnot : isTimeout call ((now, .timeout other) : TimedEvent σ) = false :=
              decide_eq_false heq
            have huntil : untilTimeout call ((now, .timeout other) :: events) =
                (now, .timeout other) :: untilTimeout call events := by
              rw [untilTimeout, List.takeWhile_cons_of_pos (by rw [hnot]; rfl), untilTimeout]
            unfold outcome
            rw [huntil, List.any_cons, hnot, Bool.false_or]
            rfl

/-! ## When the window is exact -/

theorem signals_untilTimeout_isPrefix (call : Nat) (events : List (TimedEvent σ)) :
    signals (untilTimeout call events) <+: signals events := by
  refine List.IsPrefix.filterMap _ ?_
  exact List.takeWhile_prefix _

theorem signals_sorted (h : events.Pairwise fun e e' => e.1 ≤ e'.1) :
    (signals events).Pairwise fun x y => x.1 ≤ y.1 := by
  refine List.Pairwise.filterMap _ ?_ h
  intro e e' hle x hx y hy
  split at hx <;> cases hx
  split at hy <;> cases hy
  exact hle

/-- The last element that is kept is the last one, when what is kept is at the end. -/
theorem getLast_filter {α : Type} {p : α → Bool} {l : List α}
    (h : l.Pairwise fun x y => p x = true → p y = true) :
    (l.filter p).getLast? = l.getLast?.filter p := by
  induction l using List.reverseRecOn with
  | nil => rfl
  | append_singleton rest x ih =>
      obtain ⟨-, -, hlast⟩ := List.pairwise_append.mp h
      rw [List.getLast?_concat, List.filter_append]
      cases hx : p x with
      | true => simp [Option.filter_some, hx]
      | false =>
          have hnone : rest.filter p = [] := List.filter_eq_nil_iff.mpr fun y hy hkept => by
            have := hlast y hy x (List.mem_singleton_self x) hkept
            rw [hx] at this
            cases this
          simp [Option.filter_some, hx, hnone]

/-- The first element that is kept is the first one, when what is kept is at the start. -/
theorem head_filter {α : Type} {p : α → Bool} {l : List α}
    (h : l.Pairwise fun x y => p y = true → p x = true) :
    (l.filter p).head? = l.head?.filter p := by
  cases l with
  | nil => rfl
  | cons x rest =>
      obtain ⟨hfirst, -⟩ := List.pairwise_cons.mp h
      cases hx : p x with
      | true => rw [List.filter_cons_of_pos hx, List.head?_cons, List.head?_cons,
          Option.filter_some_pos hx]
      | false =>
          have hnone : rest.filter p = [] := List.filter_eq_nil_iff.mpr fun y hy hkept => by
            have := hfirst y hy hkept
            rw [hx] at this
            cases this
          rw [List.filter_cons_of_neg (by rw [hx]; exact Bool.false_ne_true), hnone]
          simp [Option.filter_some, hx]

theorem getLast_pastSignals (windowSizeInMs now : Int)
    (hsorted : before.Pairwise fun e e' => e.1 ≤ e'.1) :
    (pastSignals windowSizeInMs now before).getLast? =
      (signals before).getLast?.filter fun x => decide (now - windowSizeInMs ≤ x.1) :=
  getLast_filter ((signals_sorted hsorted).imp fun hle hx => by
    rw [decide_eq_true_iff] at hx ⊢
    omega)

theorem head_futureSignals (windowSizeInMs now : Int)
    (hsorted : after.Pairwise fun e e' => e.1 ≤ e'.1) :
    (futureSignals windowSizeInMs now after).head? =
      (signals after).head?.filter fun x => decide (x.1 ≤ now + windowSizeInMs) :=
  head_filter ((signals_sorted hsorted).imp fun hle hx => by
    rw [decide_eq_true_iff] at hx ⊢
    omega)

theorem exact_none_iff (hpast : pastSignals windowSizeInMs now before = []) :
    Exact windowSizeInMs now before after none ↔
      futureSignals windowSizeInMs now after = [] := by
  constructor
  · exact fun h => (h.missing rfl).2
  · intro h
    refine ⟨fun x hx => ?_, fun _ x hx => ?_, fun _ => ⟨hpast, h⟩⟩
    · rw [hpast] at hx
      cases hx
    · rw [h] at hx
      cases hx

variable {result : Option σ}

theorem exact_iff_of_recent (hs : Remembers s (signals before))
    (hbefore : before.Pairwise fun e e' => e.1 ≤ e'.1)
    (hrecent : now - s.lastSignalTime ≤ windowSizeInMs) :
    Exact windowSizeInMs now before after s.lastSignal ↔
      InTime windowSizeInMs now before after := by
  obtain ⟨hsignal, htime⟩ := hs
  have hlast := getLast_pastSignals windowSizeInMs now hbefore
  cases hregistered : (signals before).getLast? with
  | none =>
      -- the time of the last signal is still zero
      rw [hregistered] at hsignal htime hlast
      have hnone : signals before = [] := List.getLast?_eq_none_iff.mp hregistered
      have hpast : pastSignals windowSizeInMs now before = [] := List.getLast?_eq_none_iff.mp hlast
      have htime : s.lastSignalTime = 0 := htime
      have hnow : ¬ windowSizeInMs < now := by omega
      rw [hsignal]
      show Exact _ _ _ _ none ↔ _
      rw [exact_none_iff hpast, InTime]
      simp [hpast, hnone, hnow]
  | some x =>
      rw [hregistered] at hsignal htime hlast
      have htime : s.lastSignalTime = x.1 := htime
      have hwindow : now - windowSizeInMs ≤ x.1 := by omega
      rw [Option.filter_some, if_pos (decide_eq_true hwindow)] at hlast
      have hpast : pastSignals windowSizeInMs now before ≠ [] := by
        intro h
        rw [h] at hlast
        cases hlast
      rw [hsignal]
      refine iff_of_true ⟨fun y hy => ?_, fun h => absurd h hpast, nofun⟩ (.inl hpast)
      rw [hlast] at hy
      cases hy
      rfl

theorem exact_iff_of_waited {timer : Int} (hs : Remembers s (signals before))
    (hbefore : before.Pairwise fun e e' => e.1 ≤ e'.1)
    (hafter : after.Pairwise fun e e' => e.1 ≤ e'.1)
    (hrecent : ¬ now - s.lastSignalTime ≤ windowSizeInMs)
    (hresult : outcome (callCount before) timer after = .resolved result) :
    Exact windowSizeInMs now before after result ↔ InTime windowSizeInMs now before after := by
  obtain ⟨-, htime⟩ := hs
  have hlast := getLast_pastSignals windowSizeInMs now hbefore
  have hpast : pastSignals windowSizeInMs now before = [] := by
    rw [← List.getLast?_eq_none_iff, hlast]
    cases hregistered : (signals before).getLast? with
    | none => rfl
    | some x =>
        rw [hregistered] at htime
        have htime : s.lastSignalTime = x.1 := htime
        have hout : ¬ now - windowSizeInMs ≤ x.1 := by omega
        rw [Option.filter_some, if_neg (by rw [decide_eq_true_iff]; exact hout)]
  have hwaits : signals before ≠ [] ∨ windowSizeInMs < now := by
    cases hregistered : signals before with
    | cons x rest => exact .inl (List.cons_ne_nil x rest)
    | nil =>
        rw [hregistered] at htime
        have htime : s.lastSignalTime = 0 := htime
        exact .inr (by omega)
  unfold outcome at hresult
  cases hhead : (signals (untilTimeout (callCount before) after)).head? with
  | some x =>
      -- the first signal after the call is what the call resolves to
      rw [hhead] at hresult
      cases hresult
      have hfirst : (signals after).head? = some x := by
        obtain ⟨rest, hrest⟩ := signals_untilTimeout_isPrefix (callCount before) after
        rw [← hrest, List.head?_append, hhead]
        rfl
      have hne : signals (untilTimeout (callCount before) after) ≠ [] := by
        intro h
        rw [h] at hhead
        cases hhead
      refine iff_of_true ⟨fun y hy => ?_, fun _ y hy => ?_, nofun⟩ (.inr (.inr ⟨hwaits, hne⟩))
      · rw [hpast] at hy
        cases hy
      · rw [head_futureSignals windowSizeInMs now hafter, hfirst, Option.filter_eq_some_iff] at hy
        cases hy.1
        rfl
  | none =>
      rw [hhead] at hresult
      have hnone : signals (untilTimeout (callCount before) after) = [] :=
        List.head?_eq_none_iff.mp hhead
      have hresult : result = none := by
        dsimp only at hresult
        split at hresult
        · cases hresult
          rfl
        · cases hresult
      rw [hresult, exact_none_iff hpast, InTime]
      simp [hpast, hnone]

/-- A call resolves to a signal of its window exactly when such a signal, if there is one, comes
before the call or before the timer of the call. -/
theorem window_exact_iff
    (hsorted : (before ++ (now, .getSignal) :: after).Pairwise fun e e' => e.1 ≤ e'.1)
    (hrun : run (step windowSizeInMs) {} (before ++ (now, .getSignal) :: after) = some s)
    (hresult : s.calls[callCount before]? = some (.resolved result)) :
    Exact windowSizeInMs now before after result ↔ InTime windowSizeInMs now before after := by
  obtain ⟨hbefore, hrest, -⟩ := List.pairwise_append.mp hsorted
  obtain ⟨-, hafter⟩ := List.pairwise_cons.mp hrest
  obtain ⟨called, hcalled, hrun⟩ := run_append_eq_some.mp hrun
  obtain ⟨next, hnext, hrun⟩ := run_cons_eq_some.mp hrun
  have hstart : Remembers ({} : SignalState σ) [] := ⟨rfl, rfl⟩
  obtain ⟨hmemory, hlength⟩ := run_remembers hcalled hstart
  rw [List.nil_append] at hmemory
  cases hnext
  have hcall : (called.calls ++ [called.getSignal windowSizeInMs now])[callCount before]? =
      some (called.getSignal windowSizeInMs now) := by
    have hlength : callCount before = called.calls.length := by
      rw [hlength]
      exact (Nat.zero_add _).symm
    rw [hlength, List.getElem?_concat_length]
  unfold SignalState.getSignal at hcall hrun
  split at hcall
  · next hrecent =>
      rw [if_pos hrecent] at hrun
      rw [run_resolved hrun hcall] at hresult
      cases hresult
      exact exact_iff_of_recent hmemory hbefore hrecent
  · next hrecent =>
      rw [if_neg hrecent] at hrun
      rw [run_waiting hrun hcall] at hresult
      exact exact_iff_of_waited hmemory hbefore hafter hrecent (Option.some.inj hresult)

/-- The condition at a call that is answered by the signal before it. -/
theorem window_exact_recent :
    Exact 500 1000 [(900, .signal 7)] [] (some 7) ↔ InTime 500 1000 [(900, .signal 7)] [] :=
  window_exact_iff (s := {
    lastSignal := some 7, lastSignalTime := 900, calls := [.resolved (some 7)] }) (by decide) rfl rfl

/-- The signal 200 milliseconds after a call is missed in a window of 500. -/
theorem late_signal_missed :
    run (step 500) {} ([] ++ (1000, .getSignal) :: [(1001, .timeout 0), (1200, .signal 7)]) =
        some { lastSignal := some 7, lastSignalTime := 1200, calls := [.resolved none] } ∧
      ¬ Exact 500 1000 [] [(1001, .timeout 0), (1200, .signal 7)] (none : Option Nat) :=
  ⟨rfl, fun h => absurd (h.missing rfl).2 (List.cons_ne_nil _ _)⟩

end N8n.TaskRunners.SlidingWindow
