import NdimonR.Library.Effects
import NdimonR.Privd.Manifest

/-! The directories of one plugin, `dest` and `.previous-NAME`, and the operations that move trees
between them. The worker may be killed at every `stop`, which stand after each durable step and
inside each recursive removal. -/

namespace NdimonR.Privd

/-- An unpacked plugin. `whole` says that no file of it has been removed, `broken` that it carries
the marker. -/
structure Tree where
  id : Nat
  manifest : Manifest
  whole : Bool := true
  broken : Bool := true

/-- Part of a tree is gone, and the marker with it unless `marker`. -/
def Tree.torn (marker : Bool) (t : Tree) : Tree :=
  { t with whole := false, broken := t.broken && marker }

/-- What the proofs remember. An install ends with the removal of its marker, an uninstall with
the removal of the live tree. -/
inductive Event where
  | placed (id : Nat)
  | installed (id : Nat)
  | uninstalled
  deriving DecidableEq

structure Dirs where
  dest : Option Tree := none
  previous : Option Tree := none
  trace : List Event := []

namespace Dirs

def restore (w : Dirs) : Dirs := { w with dest := w.previous, previous := none }

def moveAway (w : Dirs) : Dirs := { w with previous := w.dest, dest := none }

/-- The staged tree becomes the live one, under an identity no tree has had. -/
def place (m : Manifest) (w : Dirs) : Dirs :=
  { w with
    dest := some { id := w.trace.length, manifest := m }
    trace := .placed w.trace.length :: w.trace }

def mark (w : Dirs) : Dirs := { w with dest := w.dest.map fun t => { t with broken := true } }

def unmark (w : Dirs) : Dirs :=
  match w.dest with
  | none => w
  | some t =>
    { w with dest := some { t with broken := false }, trace := .installed t.id :: w.trace }

def note (e : Event) (w : Dirs) : Dirs := { w with trace := e :: w.trace }

def tearDest (marker : Bool) (w : Dirs) : Dirs := { w with dest := w.dest.map (Tree.torn marker) }

def tearPrevious (marker : Bool) (w : Dirs) : Dirs :=
  { w with previous := w.previous.map (Tree.torn marker) }

def dropDest (w : Dirs) : Dirs := { w with dest := none }

def dropPrevious (w : Dirs) : Dirs := { w with previous := none }

end Dirs

/-- Where the worker is killed. Inside a removal, `marker` says whether the marker still exists. -/
inductive Kill where
  | recovered
  | clearing (marker : Bool)
  | cleared
  | movedAway
  | placed
  | unmarked
  | discarding (marker : Bool)
  | discarded
  | failed
  | removing (marker : Bool)
  | removed
  | restored
  deriving DecidableEq

abbrev PackageAction := Proc Dirs Error

def stopAt (kill : Option Kill) (here : Kill) : PackageAction Unit :=
  if kill = some here then Proc.stop else pure ()

/-- A recursive removal, which may be cut off half way. -/
def removeTree (kill : Option Kill) (tear : Bool → Dirs → Dirs) (drop : Dirs → Dirs)
    (inside : Bool → Kill) (after : Kill) : PackageAction Unit :=
  if kill = some (inside true) then do
    Proc.modify (tear true)
    Proc.stop
  else if kill = some (inside false) then do
    Proc.modify (tear false)
    Proc.stop
  else do
    Proc.modify drop
    stopAt kill after

def recover (kill : Option Kill) : PackageAction Unit := do
  let w ← Proc.read id
  Proc.when (w.previous.isSome ∧ w.dest.isNone) do
    Proc.modify Dirs.restore
    stopAt kill .recovered

def nativeLifecycle (name : PluginName) : Bool := name.val == "tessera"

/-- The request of an install and what it meets: the archive, the host, `dpkg`'s comparisons, the
lifecycle hook, and where the worker is killed. -/
structure Install where
  prepared : Except Error Manifest
  firmware : Except Error DebianVersion
  dpkg : DebianVersion → String → DebianVersion → Bool
  force : Bool
  readable : Except Error Unit := .ok ()
  bundle : Except Error Unit := .ok ()
  stateDir : Except Error Unit := .ok ()
  allowed : Except Error Unit := .ok ()
  isFile : String → Except Error Bool := fun _ => .ok true
  lifecycle : Except Error Unit := .ok ()
  host : Host := ⟨fun _ => .ok none, .ok []⟩
  kill : Option Kill := none

namespace Install

/-- Everything that is checked before a directory changes. -/
def admitted (i : Install) (name : PluginName) (live : Option Tree) : Except Error Manifest := do
  let manifest ← i.prepared
  let firmware ← i.firmware
  refuse (!i.dpkg firmware "ge" manifest.minNdimon) "min_ndimon" "host_too_old"
  match live with
  | some old =>
    if i.force then pure ()
    else do
      i.readable
      refuse (i.dpkg manifest.version "lt" old.manifest.version) "version"
        "downgrade requires --force"
  | none => pure ()
  if name.val = "tessera" ∧ manifest.process.isNone then i.bundle else pure ()
  i.stateDir
  i.allowed
  if manifest.process.isNone ∧ nativeLifecycle name = false then
    [manifest.install, manifest.uninstall].forM fun file => do
      let isFile ← i.isFile file
      refuse (!isFile) "manifest" "install/uninstall executables required"
  else pure ()
  pure manifest

/-- A group the manifest asks for exists and may be had, once the hook has run. -/
def groupSafe (i : Install) (name : PluginName) (group : String) : Except Error Unit := do
  let gid ← i.host.groupId group
  let permitted ← if gid.isNone then pure false else i.host.permittedGroup name group
  refuse (!permitted) "supplementary_groups" "group missing or unsafe after install"

def outcome (i : Install) (name : PluginName) (manifest : Manifest) : Except Error Unit := do
  if manifest.process.isSome then pure () else i.lifecycle
  manifest.supplementaryGroups.forM (i.groupSafe name)

end Install

/-- Puts the tree that was moved away back, marked for review. -/
def rollBack (kill : Option Kill) : PackageAction Unit := do
  Proc.modify Dirs.mark
  stopAt kill .failed
  let w ← Proc.read id
  Proc.when w.previous.isSome do
    removeTree kill Dirs.tearDest Dirs.dropDest .removing .removed
    Proc.modify Dirs.restore
    stopAt kill .restored
    Proc.modify Dirs.mark

/-- The new tree takes the place of the live one, which is kept until its hook has run. -/
def swap (name : PluginName) (i : Install) (manifest : Manifest) : PackageAction Unit := do
  removeTree i.kill Dirs.tearPrevious Dirs.dropPrevious .clearing .cleared
  let w ← Proc.read id
  Proc.when w.dest.isSome do
    Proc.modify Dirs.moveAway
    stopAt i.kill .movedAway
  Proc.modify (Dirs.place manifest)
  stopAt i.kill .placed
  match i.outcome name manifest with
  | .error e => do
    rollBack i.kill
    Proc.fail e
  | .ok () => do
    Proc.modify Dirs.unmark
    stopAt i.kill .unmarked
    removeTree i.kill Dirs.tearPrevious Dirs.dropPrevious .discarding .discarded

def install (name : PluginName) (i : Install) : PackageAction Unit := do
  recover i.kill
  let w ← Proc.read id
  let manifest ← Proc.ofExcept (i.admitted name w.dest)
  swap name i manifest

inductive RemoveMode where
  | keepState
  | purge
  | force
  deriving DecidableEq

structure Uninstall where
  mode : RemoveMode
  readable : Except Error Unit := .ok ()
  lifecycle : Except Error Unit := .ok ()
  registry : Except Error Unit := .ok ()
  kill : Option Kill := none

/-- Stops the plugin. A plugin that cannot be stopped is marked, one that cannot be read is not. -/
def Uninstall.quit (u : Uninstall) : PackageAction Unit := do
  if u.mode = .force then pure ()
  else do
    Proc.ofExcept u.readable
    match u.lifecycle with
    | .error e => do
      Proc.modify Dirs.mark
      Proc.fail e
    | .ok () => pure ()

def uninstall (u : Uninstall) : PackageAction Unit := do
  recover u.kill
  let w ← Proc.read id
  match w.dest with
  | none => do
    removeTree u.kill Dirs.tearPrevious Dirs.dropPrevious .discarding .discarded
    Proc.modify (Dirs.note .uninstalled)
  | some _ => do
    u.quit
    removeTree u.kill Dirs.tearDest (fun w => w.dropDest.note .uninstalled) .removing .removed
    if u.mode = .purge then Proc.ofExcept u.registry else pure ()

/-- One call for the plugin. A command and an inspection change no directory beyond the recovery
they start with. -/
inductive PackageCall where
  | install (i : Install)
  | uninstall (u : Uninstall)
  | execute (kill : Option Kill) (result : Except Error Unit)
  | inspect (kill : Option Kill) (result : Except Error Unit)

def PackageCall.run (name : PluginName) : PackageCall → PackageAction Unit
  | .install i => Privd.install name i
  | .uninstall u => Privd.uninstall u
  | .execute kill result => do
    recover kill
    Proc.ofExcept result
  | .inspect kill result => do
    recover kill
    Proc.ofExcept result

namespace Dirs

def step (name : PluginName) (w : Dirs) (c : PackageCall) : Dirs := (c.run name w).2

def run (name : PluginName) (w : Dirs) (calls : List PackageCall) : Dirs :=
  calls.foldl (step name) w

/-- The live tree, once an interrupted swap has been recovered from. -/
def live (w : Dirs) : Option Tree := w.dest.or w.previous

end Dirs

/-- The install whose tree the plugin should have: the last that ended, with no uninstall since. -/
def current : List Event → Option Nat
  | [] => none
  | .placed _ :: rest => current rest
  | .installed id :: _ => some id
  | .uninstalled :: _ => none

inductive ReachableDirs (name : PluginName) (allowed : Dirs → PackageCall → Prop) : Dirs → Prop where
  | init : ReachableDirs name allowed {}
  | step {w : Dirs} {c : PackageCall} : ReachableDirs name allowed w → allowed w c →
      ReachableDirs name allowed (w.step name c)

end NdimonR.Privd
