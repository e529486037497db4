import LuaPages.Lua.Evaluate
import LuaPages.Lua.Library.Names

namespace LuaPages.Lua

/-- Who waits for a task. A call keeps the activation of its caller. -/
structure Frame where
  resume : Except Value Flow → Store → Prog Outcome
  mode : Catch
  caller : Option Activation

inductive Parked where
  | waiting (resume : List Value → Store → Prog Outcome) (frames : List Frame) (active : Activation)
  | failed (e : Value) (frames : List Frame) (active : Activation)

structure Resumer where
  frame : Frame
  frames : List Frame
  thread : Nat
  closes : Bool

structure Machine where
  frames : List Frame
  resumers : List Resumer
  parked : Array (Option Parked)

structure Finished where
  result : Except Value (List Value)
  store : Store
  parked : Array (Option Parked)

namespace Machine

/-- Calls of script functions that can be under way at once; a few more may report that there are too
many. -/
def depthLimit : Nat := 190000

def reportingDepthLimit : Nat := 190060

def nestingLimit : Nat := 200

def reportingLimit : Nat := 220

variable (library : Builtin → List Value → Script (List Value))

def failed (o : Origin) (message : String) : Script Outcome := Script.failAt o message

def enterFunction (code : Function) (args : List Value) : Script Unit := do
  let n := code.info.params
  Script.declareSlots (List.range n) args
  if code.info.isVararg then
    Script.changeActive fun a => { a with varargs := args.drop n }

def callProgram (f : Value) (args : List Value) (site : Site) (trace : List Origin) : Script Outcome :=
  fun s =>
    let a := s.active
    let depth := a.depth + 1
    let nesting := if site.nested then a.nesting + 1 else a.nesting
    let yieldable := a.yieldable && site.yields
    -- the call that gets to a limit is told so; handlers may go a little further, and then fail at once
    if site.nested && nesting = nestingLimit then
      failed site.origin "C stack overflow" { s with active := { a with nesting := nesting } }
    else if site.nested && reportingLimit ≤ nesting then
      .fail (.text "error in error handling") true s
    else
      match f with
      | .closure id =>
        match s.closures[id]? with
        | none => .done (.finish .next) s
        | some c =>
          if depth = depthLimit then
            failed site.origin "stack overflow" { s with active := { a with depth := depth } }
          else if reportingDepthLimit ≤ depth then .fail (.text "error in error handling") true s
          else
            let info := c.code.info
            let active : Activation :=
              { code := c.code, slots := Array.replicate info.slots .nil
                cells := if info.captured.contains true then Array.replicate info.slots 0 else #[]
                upvalues := c.upvalues, varargs := [], trace := trace
                name := site.name.getD ("", .empty), depth := depth, nesting := nesting
                yieldable := yieldable }
            (do
              enterFunction c.code args
              Script.runTurn (.block c.code.body c.code.body)) { s with active := active }
      | .builtin b =>
        let name := site.name.getD ("", (b.globalName?.getD "").toUTF8)
        (do return .finish (.return (← library b args)) : Script Outcome)
          { s with active := .library trace name depth nesting yieldable }
      | _ =>
        (do
          let h ← Script.metamethod f "__call"
          if h.isNil then Script.typeError site.origin "call" f site.name
          else return Outcome.again (.call h (f :: args) site)) s

def setStatus (thread : Nat) (status : ThreadStatus) (s : Store) : Store :=
  { s with threads := s.threads.modify thread fun t => { t with status := status } }

def switch (thread : Nat) (left : ThreadStatus) (s : Store) : Store :=
  { setStatus thread .running (setStatus s.thread left s) with thread := thread }

def baseActivation (nesting : Nat) : Activation := .library [] ("", .empty) 0 nesting true

def parkedAt (m : Machine) (id : Nat) : Option Parked := m.parked.getD id none

def park (m : Machine) (id : Nat) (p : Option Parked) : Machine :=
  let room := m.parked ++ Array.replicate (id + 1 - m.parked.size) none
  { m with parked := room.setIfInBounds id p }

/-- A machine with the program that runs in it. The program alone holds the store. -/
abbrev Turn := Machine × Prog Outcome

def deliver (m : Machine) (f : Frame) (r : Except Value Flow) (s : Store) : Turn :=
  let s := match f.caller with
    | some a => { s with active := a }
    | none => s
  (m, f.resume r s)

def start (m : Machine) (t : Task) (s : Store) : Turn :=
  match t with
  | .call f args site => (m, callProgram library f args site (site.origin :: s.active.trace) s)
  | .job j => (m, Script.runTurn j s)
  | .resume id args =>
    match m.frames with
    | [] => (m, .done (.finish .next) s)
    | f :: frames =>
      let nesting := s.active.nesting + 1
      let m := { m with resumers := ⟨f, frames, s.thread, false⟩ :: m.resumers }
      let s := switch id .normal s
      match m.parkedAt id with
      | some (.waiting k frames active) =>
        let m := { m.park id none with frames := frames }
        (m, k args { s with active := { active with nesting := nesting } })
      | _ =>
        -- a thread that has not begun
        let body := (s.threads.getD id default).body
        let s := { s with active := baseActivation nesting }
        ({ m with frames := [] }, callProgram library body args ⟨none, none, false, true⟩ [] s)
  | .close id =>
    match m.frames with
    | [] => (m, .done (.finish .next) s)
    | f :: frames =>
      let m := { m with resumers := ⟨f, frames, s.thread, true⟩ :: m.resumers, frames := [] }
      let s := switch id .normal s
      match m.parkedAt id with
      | some (.waiting _ frames active) =>
        ({ m.park id none with frames := frames }, .done (.finish .killed) { s with active := active })
      | some (.failed e frames active) =>
        ({ m.park id none with frames := frames }, .fail e true { s with active := active })
      | none => (m, .done (.finish .killed) s)

def leave (m : Machine) (r : Except Value Flow) (s : Store) : Turn ⊕ Finished :=
  match m.resumers with
  | [] => .inr ⟨r.map Flow.values, s, m.parked⟩
  | r' :: rs =>
    .inl (deliver { m with frames := r'.frames, resumers := rs } r'.frame r (switch r'.thread .dead s))

def handler? : List Frame → Option (Option Value)
  | [] => none
  | f :: fs =>
    match f.mode with
    | .always => some none
    | .handled h => some (some h)
    | _ => handler? fs

/-- Hands an error to the closest frame that is told of errors. Frames in between are dropped, and
the last activation that one of them keeps is the one that goes on. -/
def unwind (m : Machine) (e : Value) : List Frame → Store → Turn ⊕ Finished
  | [], s => leave { m with frames := [] } (.error e) s
  | f :: fs, s =>
    match f.mode with
    | .never =>
      unwind m e fs (match f.caller with | some a => { s with active := a } | none => s)
    | _ => .inl (deliver { m with frames := fs } f (.error e) s)

/-- Leaves a thread that is being closed, by way of the frames that close variables. -/
def kill (m : Machine) : List Frame → Store → Turn ⊕ Finished
  | [], s => leave { m with frames := [] } (.ok (.return [])) s
  | f :: fs, s =>
    match f.mode with
    | .closing => .inl (deliver { m with frames := fs } f (.ok .killed) s)
    | _ => kill m fs (match f.caller with | some a => { s with active := a } | none => s)

def replaceCall (m : Machine) (f : Value) (args : List Value) (site : Site) (s : Store) : Turn :=
  let depth := s.active.depth - 1
  (m, callProgram library f args { site with name := none } s.active.trace
    { s with active := { s.active with depth := depth } })

def finish (m : Machine) (flow : Flow) (s : Store) : Turn ⊕ Finished :=
  match flow with
  | .killed => kill m m.frames s
  | .tail f args site =>
    match m.frames with
    | f' :: fs =>
      if f'.caller.isSome then .inl (replaceCall library m f args site s)
      else .inl (deliver { m with frames := fs } f' (.ok flow) s)
    | [] => .inl (replaceCall library m f args site s)
  | flow =>
    match m.frames with
    | f :: fs => .inl (deliver { m with frames := fs } f (.ok flow) s)
    | [] => leave m (.ok flow) s

def isClosing (m : Machine) : Bool := (m.resumers.head?.map (·.closes)).getD false

def fail (m : Machine) (e : Value) (handled : Bool) (s : Store) : Turn ⊕ Finished :=
  match handler? m.frames with
  | some (some h) =>
    if handled then unwind m e m.frames s
    else
      let k (r : Except Value Flow) (s : Store) : Prog Outcome :=
        match r with
        | .ok flow => .fail (flow.values.headD .nil) true s
        | .error e => .fail e true s
      let m := { m with frames := ⟨k, .never, some s.active⟩ :: m.frames }
      .inl (start library m (.call h [e] .library) s)
  | some none => unwind m e m.frames s
  | none =>
    -- an error in a thread that is being closed goes on to the frames that close variables
    if m.isClosing then unwind m e m.frames s
    else
      if s.thread = mainThread then unwind m e m.frames s
      else leave (m.park s.thread (some (.failed e m.frames s.active))) (.error e) s

def keepsCaller : Task → Bool
  | .job _ => false
  | _ => true

def step (m : Machine) (program : Prog Outcome) : Turn ⊕ Finished :=
  match program with
  | .done (.finish flow) s => finish library m flow s
  | .done (.again t) s => .inl (start library m t s)
  | .fail e handled s => fail library m e handled s
  | .ask t c s k =>
    let frame : Frame := ⟨k, c, if keepsCaller t then some s.active else none⟩
    .inl (start library { m with frames := frame :: m.frames } t s)
  | .yield vs s k =>
    match m.resumers with
    -- the thread stops here, with all that waits in it
    | r :: rs =>
      let m := m.park s.thread (some (.waiting k m.frames s.active))
      .inl (deliver { m with frames := r.frames, resumers := rs } r.frame (.ok (.return vs))
        (switch r.thread .suspended s))
    | [] => .inl (m, k [] s)

def run : Nat → Machine → Prog Outcome → Option Finished
  | 0, _, _ => none
  | fuel + 1, m, program =>
    match step library m program with
    | .inl (m, program) => run fuel m program
    | .inr r => some r

end Machine

end LuaPages.Lua
