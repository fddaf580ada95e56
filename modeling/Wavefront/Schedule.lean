import Wavefront.Program
import Wavefront.Store

set_option autoImplicit false

/-!
# Schedules

A program is evaluated in waves, without sorting it first. Every definition that is live, has no
value yet and knows its operands takes part in the next wave; those that do not know their
operands wait, and the others are done for good. Waves follow each other until one has nothing
to do or stores nothing. What still waits then is unresolved.

A wave can be run in turn, each member reading the store that the one before it left, or
together, all members reading the store as it was before the wave. Members of one wave have
different targets, so it makes no difference.
-/
namespace Wavefront

/-- How waves are run. The numbers are advice to the machine and change no result. -/
structure Settings where
  parallel : Bool := true
  threads : Nat := 0
  stackSize : Nat := 2 * 1024 * 1024
deriving DecidableEq

def Settings.sequential : Settings := { parallel := false }

def Store.resolve (s : Store) : Operand → Option Value
  | .literal v => some v
  | .reference n => s.get? n

/-- A definition that takes part in a wave, its operands resolved. -/
structure Ready where
  index : Nat
  target : Name
  operator : Operator
  left : Value
  right : Value
deriving DecidableEq

inductive Standing
  | done
  | ready (r : Ready)
  | blocked
deriving DecidableEq

def Task.standing (live : NameSet) (s : Store) (t : Task) : Standing :=
  if t.target ∉ live || s.contains t.target then .done
  else
    match s.resolve t.definition.left, s.resolve t.definition.right with
    | some left, some right => .ready ⟨t.index, t.target, t.definition.operator, left, right⟩
    | _, _ => .blocked

def Standing.ready? : Standing → Option Ready
  | .ready r => some r
  | _ => none

def readyTasks (live : NameSet) (s : Store) (pending : List Task) : List Ready :=
  pending.filterMap fun t => (t.standing live s).ready?

def blockedTasks (live : NameSet) (s : Store) (pending : List Task) : List Task :=
  pending.filter fun t => t.standing live s = .blocked

theorem length_blockedTasks_lt {live : NameSet} {s : Store} {pending : List Task}
    (h : readyTasks live s pending ≠ []) :
    (blockedTasks live s pending).length < pending.length := by
  obtain ⟨r, hr⟩ := List.exists_mem_of_ne_nil _ h
  obtain ⟨t, ht, hs⟩ := List.mem_filterMap.1 hr
  refine List.length_filter_lt_length_iff_exists.2 ⟨t, ht, ?_⟩
  cases hst : t.standing live s <;> simp_all [Standing.ready?]

inductive DiscardReason
  | unsupportedOperator (symbol : String)
  | overflow
deriving DecidableEq

def DiscardReason.text : DiscardReason → String
  | unsupportedOperator symbol => s!"unsupported operator `{symbol}`"
  | overflow => "integer overflow"

inductive Outcome
  | stored (value : Value)
  | alreadyStored
  | discarded (reason : DiscardReason)
deriving DecidableEq

def Ready.outcome (r : Ready) (s : Store) : Outcome :=
  if s.contains r.target then .alreadyStored
  else
    match r.operator.apply r.left r.right with
    | .ok v => .stored v
    | .error .unsupported => .discarded (.unsupportedOperator r.operator.symbol)
    | .error .overflow => .discarded .overflow

/-- A member of a wave and what became of it. -/
structure Attempt where
  ready : Ready
  outcome : Outcome
deriving DecidableEq

namespace Attempt

def value? (a : Attempt) : Option Value :=
  match a.outcome with
  | .stored v => some v
  | _ => none

def reason? (a : Attempt) : Option DiscardReason :=
  match a.outcome with
  | .discarded reason => some reason
  | _ => none

end Attempt

def Store.settle (s : Store) (a : Attempt) : Store :=
  match a.value? with
  | some v => s.set a.ready.target v
  | none => s

def runInTurn (s : Store) : List Ready → List Attempt × Store
  | [] => ([], s)
  | r :: rest =>
    let a : Attempt := ⟨r, r.outcome s⟩
    let (attempts, s) := runInTurn (s.settle a) rest
    (a :: attempts, s)

def runTogether (s : Store) (ready : List Ready) : List Attempt × Store :=
  let attempts := ready.map fun r => ⟨r, r.outcome s⟩
  (attempts, attempts.foldl Store.settle s)

def runWave (settings : Settings) (s : Store) (ready : List Ready) : List Attempt × Store :=
  if settings.parallel then runTogether s ready else runInTurn s ready

/-- What happened in a wave, and how many tasks waited meanwhile. -/
structure Wave where
  attempts : List Attempt
  blocked : Nat
deriving DecidableEq

structure Run where
  waves : List Wave
  unresolved : List Nat
  store : Store

def runTasks (settings : Settings) (live : NameSet) (s : Store) (pending : List Task) : Run :=
  let blocked := blockedTasks live s pending
  match _h : readyTasks live s pending with
  | [] => ⟨[], blocked.map Task.index, s⟩
  | r :: rest =>
    let (attempts, s') := runWave settings s (r :: rest)
    let wave : Wave := ⟨attempts, blocked.length⟩
    if attempts.any fun a => a.value?.isSome then
      let later := runTasks settings live s' blocked
      ⟨wave :: later.waves, later.unresolved, later.store⟩
    else ⟨[wave], blocked.map Task.index, s'⟩
termination_by pending.length
decreasing_by exact length_blockedTasks_lt (by simp [_h])

def Program.run (p : Program) (settings : Settings) (live : NameSet) (s : Store) : Run :=
  runTasks settings live s p.tasks

structure Discarded where
  index : Nat
  target : Name
  reason : DiscardReason
deriving DecidableEq

def Attempt.discarded? (a : Attempt) : Option Discarded :=
  a.reason?.map fun reason => ⟨a.ready.index, a.ready.target, reason⟩

structure Report where
  waves : Nat
  computed : Nat
  discarded : List Discarded
  unresolved : List Nat
deriving DecidableEq

def Run.attempts (r : Run) : List Attempt := r.waves.flatMap Wave.attempts

def Run.report (r : Run) : Report where
  waves := r.waves.length
  computed := (r.attempts.filterMap Attempt.value?).length
  discarded := r.attempts.filterMap Attempt.discarded?
  unresolved := r.unresolved

end Wavefront
