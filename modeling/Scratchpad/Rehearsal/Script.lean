import Scratchpad.Engine.State
import Scratchpad.Rehearsal.Program

/-! Scripts by which workers behave. -/
namespace Scratchpad.Rehearsal

open Engine (Spawn)

/-- What comes of an attempt to start a worker. -/
inductive Entrance where
  | fail (reason : String)
  | broken (text : String)
  /-- The worker does some things first, and then is ready unless it keeps silent about it. -/
  | worker (before : List Act) (silent : Bool)
  | program (p : Program)

/-- What a worker does when it is asked to execute something, and when it is asked to stop. -/
structure Part where
  acts : List Act
  onCancel : List Act

structure Script where
  /-- What comes of an attempt after some earlier ones. -/
  entrance : List Spawn → Spawn → Entrance
  /-- What transpilers answer, one request after the other. -/
  transpilerReplies : List (List Act) := []

def isTranspiler (a : Spawn) : Bool := a.command.head? = some "transpiler"

namespace Script

/-- Workers and transpilers enter one after the other as they are listed; those that are not listed
are ready at once. -/
def ofEntrances (workers transpilers : List Entrance) (transpilerReplies : List (List Act)) :
    Script :=
  { transpilerReplies
    entrance := fun earlier a =>
      let n := earlier.countP fun e => isTranspiler e = isTranspiler a
      let entrances := if isTranspiler a then transpilers else workers
      (entrances[n]?).getD (.worker [] false) }

/-- Workers are programs that run at a place in a folder. -/
def ofFolder (folder : Folder) (place : Except FileFault Folder.Place) : Script :=
  { entrance := fun _ a =>
      match Program.fault? folder place a.command, place with
      | some reason, _ => .fail reason
      | none, .ok place => .program { folder, place, command := a.command }
      | none, .error f => .fail f.message }

def spawner (s : Script) : Engine.Spawner := fun earlier a =>
  match s.entrance earlier a with
  | .fail reason => some (.initialization a.language reason)
  | .broken text => some (.protocol text)
  | .worker .. | .program _ => none

end Script

/-- The program that a new worker runs, and its first acts. -/
def Entrance.opening : Entrance → Option Program × List Act
  | .worker before silent => (none, if silent then before else before ++ [.say .ready])
  | .program p => let (p, acts) := p.proceed; (some p, acts)
  | _ => (none, [])

end Scratchpad.Rehearsal
