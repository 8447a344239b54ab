import Mathlib.Logic.Function.Basic
import Vte.Base.Machine

/-!
kernel/sched/pthreads/pth_str01.c and pth_str03.c: a tree of threads that grows level by level. A step is a
section between a lock and its unlock, the creation of a thread, the wait for one, or what a thread does after
it was woken; nothing fails, and nobody is woken without a broadcast. pth_str03 also adds the numbers of the
threads up.
-/
namespace ThreadTree
open Function

inductive Prog where
  | str01
  | str03
deriving DecidableEq

structure Params where
  prog : Prog
  breadth : Nat
  depth : Nat

section params

/-- The result of a sum or product in an `int`. -/
def int (n : Nat) : Option Nat := if n < 2147483648 then some n else none

def numNodesLoop (b : Nat) : Nat → Nat → Nat → Option Nat
  | 0, _, sum => some sum
  | left + 1, partial_exp, sum => do
    let partial_exp ← int (partial_exp * b)
    let sum ← int (sum + partial_exp)
    numNodesLoop b left partial_exp sum

def num_nodes (b d : Nat) : Option Nat := numNodesLoop b d 1 1

def MAXTHREADS : Nat := 1000

/-- The number of nodes that `main` allocates, if it does not exit. -/
def accepts (p : Params) : Option Nat := do
  if p.breadth = 0 ∨ p.depth = 0 then none
  else
    let total ← num_nodes p.breadth p.depth
    if p.prog = .str03 ∧ total > MAXTHREADS then none else some total

end params

/-- Where a thread is in `doit`, once it has its `my_index`. -/
inductive Pc where
  /-- on `node_condvar` -/
  | waiting
  | woken
  /-- about to compare `cdepth` with `depth` -/
  | ready
  | creating (child : Nat)
  | joining (child : Nat)
  | talking (child : Nat)
  /-- about to look at its `talk_count` -/
  | checking
  /-- on its `talk_condvar` -/
  | talkWaiting
  | talkWoken
  | exited
deriving DecidableEq

structure Thread where
  /-- what `doit` was called with -/
  parent : Option Nat
  /-- how far from the first thread it was created; the program does not keep this -/
  level : Nat
  pc : Pc
deriving DecidableEq

structure Info where
  /-- the threads that were created, each with its index once it has registered -/
  threads : List (Option Nat)
  child_ptrs : List Nat
  talk_count : Nat
  sum : Nat
deriving DecidableEq

structure State where
  node_count : Nat
  cdepth : Nat
  thread : Nat → Thread
  child_info : Nat → Info

inductive Act where
  /-- the first thread starts -/
  | start
  /-- a thread that was created registers with its parent -/
  | register (parent child : Nat)
  /-- the thread with this index goes on -/
  | next (index : Nat)
deriving DecidableEq

section step
variable (p : Params)

/-- `child_info` as `memset` leaves it, with the first thread created. -/
def init : State := ⟨0, 0, fun _ => ⟨none, 0, .waiting⟩, fun _ => ⟨[], [], 0, 0⟩⟩

def State.goTo (s : State) (i : Nat) (pc : Pc) : State :=
  { s with thread := update s.thread i { s.thread i with pc := pc } }

/-- `pthread_cond_broadcast` on `node_condvar`. -/
def broadcast (thread : Nat → Thread) (i : Nat) : Thread :=
  if (thread i).pc = .waiting then { thread i with pc := .woken } else thread i

def start (s : State) : Option State :=
  if s.node_count = 0 then
    some { s with node_count := 1, cdepth := 1, thread := update s.thread 0 ⟨none, 0, .ready⟩ }
  else none

/-- `child_info` after a thread has registered. -/
def registered (s : State) (parent child : Nat) : Nat → Info :=
  let info := s.child_info parent
  let child_info := update s.child_info parent
    { info with
      threads := info.threads.set child (some s.node_count)
      child_ptrs := info.child_ptrs ++ [s.node_count] }
  update child_info s.node_count
    { child_info s.node_count with sum := if p.prog = .str03 then s.node_count else 0 }

def synchronize_children (s : State) (parent child : Nat) : Option State :=
  if parent < s.node_count ∧ (s.child_info parent).threads[child]? = some none then do
    let my_index := s.node_count
    let expected ← num_nodes p.breadth s.cdepth
    let level := (s.thread parent).level + 1
    if my_index + 1 = expected then
      some ⟨my_index + 1, s.cdepth + 1,
        update (broadcast s.thread) my_index ⟨some parent, level, .ready⟩, registered p s parent child⟩
    else
      some ⟨my_index + 1, s.cdepth, update s.thread my_index ⟨some parent, level, .waiting⟩,
        registered p s parent child⟩
  else none

/-- The test of `cdepth`, which is read without the lock. -/
def heart (s : State) (i : Nat) : State :=
  if s.cdepth ≤ p.depth then s.goTo i (.creating 0)
  else if p.breadth > 1 then s.goTo i (.talking 0)
  else s.goTo i .exited

def create (s : State) (i child : Nat) : State :=
  let info := s.child_info i
  let s' := { s with child_info := update s.child_info i { info with threads := info.threads ++ [none] } }
  s'.goTo i (if child + 1 < p.breadth then .creating (child + 1) else .joining 0)

/-- What pth_str03 does with `sum` after the join. -/
def addSum (s : State) (i child : Nat) : Option State :=
  if p.prog = .str03 then do
    let info := s.child_info i
    let ptr ← info.child_ptrs[child]?
    some { s with child_info := update s.child_info i { info with sum := info.sum + (s.child_info ptr).sum } }
  else some s

def join (s : State) (i child : Nat) : Option State := do
  let thread ← (s.child_info i).threads[child]?
  let j ← thread
  if (s.thread j).pc = .exited then
    let s' ← addSum p s i child
    some (s'.goTo i (if child + 1 < p.breadth then .joining (child + 1) else .exited))
  else none

def contact (s : State) (sibling : Nat) : State :=
  let info := s.child_info sibling
  let s' := { s with child_info := update s.child_info sibling { info with talk_count := info.talk_count + 1 } }
  if info.talk_count + 1 = p.breadth - 1 ∧ (s.thread sibling).pc = .talkWaiting then s'.goTo sibling .talkWoken
  else s'

def talk (s : State) (i child : Nat) : Option State := do
  let parent ← (s.thread i).parent
  let sibling ← (s.child_info parent).child_ptrs[child]?
  let s' := if sibling ≠ i then contact p s sibling else s
  some (s'.goTo i (if child + 1 < p.breadth then .talking (child + 1) else .checking))

def check (s : State) (i : Nat) : State :=
  if (s.child_info i).talk_count < p.breadth - 1 then s.goTo i .talkWaiting else s.goTo i .exited

def doit (s : State) (i : Nat) : Option State :=
  match (s.thread i).pc with
  | .waiting | .talkWaiting | .exited => none
  | .woken => some (s.goTo i .ready)
  | .ready => some (heart p s i)
  | .creating child => some (create p s i child)
  | .joining child => join p s i child
  | .talking child => talk p s i child
  | .checking => some (check p s i)
  | .talkWoken => some (s.goTo i .exited)

def step : Act → State → Option State
  | .start, s => start s
  | .register parent child, s => synchronize_children p s parent child
  | .next i, s => if i < s.node_count then doit p s i else none

end step
end ThreadTree
