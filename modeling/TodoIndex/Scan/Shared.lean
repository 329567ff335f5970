import TodoIndex.Scan.Engine

/-!
# Shared engines

Many callers can ask one engine at the same time.  Each call goes forward in small steps, and
the steps of different calls can come in any order.  A call that changes the store holds a
lock from its first step to its last; loading the store needs no lock.  A save passes all the
states of the disk that `Store.savingUnder` describes, so another call can look at the disk
between any two of them.
-/

namespace TodoIndex

/-- What a caller asks of an engine. -/
inductive Call where
  | scan (root : Path) (name : String)
  | remove (name : String)
  | load
  deriving DecidableEq, Inhabited

/-- A change of the store that takes effect when the save of it ends well. -/
inductive Commit where
  | replaced (project : String) (remarks : List Remark)
  | removed (project : String)
  deriving DecidableEq, Inhabited

namespace Commit

def apply : Commit -> Store -> Store
  | .replaced project remarks, store => (store.replaceProject project remarks).2
  | .removed project, store => (store.removeProject project).2

end Commit

/-- What a call answers in the end. -/
inductive Answer where
  | scanned (outcome : Except ScanError Report)
  | removed (outcome : Except ScanError Bool)
  | loaded (outcome : Except ScanError Store)
  deriving Inhabited

/-- How far a call has come. -/
inductive Progress where
  | asked
  | locked
  /-- The files of the project have been read. -/
  | gathered (found : Gathered)
  /-- The store has been loaded, and it is known what it shall become. -/
  | prepared (commit : Commit) (store : Store) (answer : Answer)
  /-- The store is being saved; these states of the disk are still to come. -/
  | saving (commit : Commit) (ahead : List Disk) (outcome : Except StoreError Unit)
      (answer : Answer)
  /-- The listeners are to be told. -/
  | telling (event : ScanEvent) (answer : Answer)
  /-- The lock is to be given back. -/
  | leaving (answer : Answer)
  | finished (answer : Answer)
  deriving Inhabited

namespace Progress

/-- Whether a call that has come so far holds the lock. -/
def holdsLock : Progress -> Bool
  | .asked | .finished _ => false
  | _ => true

/-- The answer of a call that has come to its end. -/
def answer? : Progress -> Option Answer
  | .finished answer => some answer
  | _ => none

end Progress

namespace Call

/-- What a scan has still to do when its outcome is known. -/
def endScan (root : Path) (name : String) (outcome : Except ScanError Report) : Progress :=
  .telling (Engine.eventOf root (Engine.nameOf root name) outcome) (.scanned outcome)

/-- What a call has still to do when it cannot go on. -/
def giveUp (cause : ScanError) : Call -> Progress
  | .scan root name => endScan root name (.error cause)
  | .remove _ => .leaving (.removed (.error cause))
  | .load => .leaving (.loaded (.error cause))

/-- What a call has still to do when the store is saved. -/
def succeed (answer : Answer) : Call -> Progress
  | .scan root name =>
      match answer with
      | .scanned outcome => endScan root name outcome
      | answer => .leaving answer
  | .remove name => .telling (.removed name) answer
  | .load => .leaving answer

/-- A call with the lock reads the project, if it is a scan. -/
def gather (e : Engine) (disk : Disk) : Call -> Progress
  | .scan root name =>
      match (e.gather disk root (Engine.nameOf root name)).value with
      | .ok found => .gathered found
      | .error cause => giveUp cause (.scan root name)
  | _ => .gathered .empty

/-- A call loads the store and finds out what to make of it. -/
def prepare (e : Engine) (disk : Disk) (found : Gathered) (call : Call) : Progress :=
  match (e.loadStore disk).value with
  | .error cause => call.giveUp cause
  | .ok store =>
      match call with
      | .scan root name =>
          let project := Engine.nameOf root name
          let (report, changed) := Engine.conclude root project found store
          .prepared (.replaced project found.remarks) changed (.scanned (.ok report))
      | .remove name =>
          match store.removeProject name with
          | (none, _) => .leaving (.removed (.ok false))
          | (some _, store) => .prepared (.removed name) store (.removed (.ok true))
      | .load => .leaving (.loaded (.ok store))

end Call

/-- An engine with all the calls that were ever made to it. -/
structure SharedEngine where
  engine : Engine
  disk : Disk
  /-- The call that holds the lock. -/
  holder : Option Nat
  calls : List (Call × Progress)
  /-- The calls that got the lock, the first one first. -/
  admitted : List Nat
  /-- The changes of the store that took effect, each with its call, the first one first. -/
  commits : List (Nat × Commit)
  /-- The events that were sent, each with the call that it tells of, the first one first. -/
  events : List (Nat × ScanEvent)
  deriving Inhabited

namespace SharedEngine

def make (engine : Engine) (disk : Disk) : SharedEngine :=
  ⟨engine, disk, none, [], [], [], []⟩

/-- A new call is made; it gets the next number. -/
def ask (s : SharedEngine) (call : Call) : SharedEngine :=
  { s with calls := s.calls ++ [(call, .asked)] }

def nextCall (s : SharedEngine) : Nat :=
  s.calls.length

/-- How far a call has come. -/
def progress? (s : SharedEngine) (who : Nat) : Option Progress :=
  s.calls[who]?.map Prod.snd

/-- The answer of a call that has come to its end. -/
def answer? (s : SharedEngine) (who : Nat) : Option Answer :=
  (s.progress? who).bind Progress.answer?

def put (s : SharedEngine) (who : Nat) (call : Call) (progress : Progress) : SharedEngine :=
  { s with calls := s.calls.set who (call, progress) }

/-- Begin a call: take the lock if it is free, or load the store without it. -/
def enter (s : SharedEngine) (who : Nat) : Call -> Option SharedEngine
  | .load => some (s.put who .load (.finished (.loaded (s.engine.loadStore s.disk).value)))
  | call =>
      match s.holder with
      | some _ => none
      | none =>
          some { s.put who call .locked with holder := some who, admitted := s.admitted ++ [who] }

/-- Come to the next state of the disk in a save.  With the last state of a save that ends well
the change of the store takes effect. -/
def saveStep (s : SharedEngine) (who : Nat) (call : Call) (commit : Commit) (answer : Answer)
    (outcome : Except StoreError Unit) : (ahead : List Disk) -> SharedEngine
  | [] =>
      match outcome with
      | .ok () => s.put who call (call.succeed answer)
      | .error cause => s.put who call (call.giveUp (.store cause))
  | disk :: ahead =>
      let s := { s.put who call (.saving commit ahead outcome answer) with disk }
      match ahead, outcome with
      | [], .ok () => { s with commits := s.commits ++ [(who, commit)] }
      | _, _ => s

/-- Do the next step of a call.  A call that waits for the lock and one that has come to its
end have none.  A save that begins with this step is made under the obstacle. -/
def advance (s : SharedEngine) (who : Nat) (obstacle : Store.Obstacle) : Option SharedEngine :=
  match s.calls[who]? with
  | none => none
  | some (call, progress) =>
      match progress with
      | .asked => s.enter who call
      | .locked => some (s.put who call (call.gather s.engine s.disk))
      | .gathered found => some (s.put who call (call.prepare s.engine s.disk found))
      | .prepared commit store answer =>
          let saving := store.savingUnder obstacle s.disk s.engine.storePath
          some (s.put who call (.saving commit saving.passed saving.outcome answer))
      | .saving commit ahead outcome answer =>
          some (s.saveStep who call commit answer outcome ahead)
      | .telling event answer =>
          some { s.put who call (.leaving answer) with events := s.events ++ [(who, event)] }
      | .leaving answer => some { s.put who call (.finished answer) with holder := none }
      | .finished _ => none

/-- One thing that can happen to a shared engine. -/
inductive Move where
  | ask (call : Call)
  | advance (who : Nat) (obstacle : Store.Obstacle)

/-- What comes of a move, if it is possible. -/
def move? (s : SharedEngine) : Move -> Option SharedEngine
  | .ask call => some (s.ask call)
  | .advance who obstacle => s.advance who obstacle

/-- The states that an engine can come to after it was made on a disk. -/
inductive Reachable (engine : Engine) (disk : Disk) : SharedEngine -> Prop where
  | make : Reachable engine disk (make engine disk)
  | move {s t : SharedEngine} (m : Move) :
      Reachable engine disk s -> s.move? m = some t -> Reachable engine disk t

/-- Let one call go on without an obstacle until it has to wait or has come to its end, but
for no more steps than `steps`. -/
def drive (who : Nat) : (steps : Nat) -> SharedEngine -> SharedEngine
  | 0, s => s
  | steps + 1, s =>
      match s.advance who .none with
      | some s => drive who steps s
      | none => s

end SharedEngine

end TodoIndex
