import Forge6809.Script.Build
import Mathlib.Tactic

/-! # Updates that fail

A file that is refused, a source that cannot be read and an image of the wrong size leave a disk as
it was, whatever the disk is. So the updates of a history that fail can be left out: the others are
answered as before and leave the same disk. The builtins of a script reach the disk in this way
only, whatever their arguments are and whatever the world answers when a file is read, and a script
that fails leaves the disk of the calls before the one that failed. -/

namespace Forge6809

namespace Disk

/-- What is left of a disk after an update: the disk itself if the update failed. -/
def Unchanged {ε α : Type} (d : Disk) (r : Except ε α × Disk) : Prop :=
  ∀ e, r.1 = .error e → r.2 = d

theorem unchanged_add (d : Disk) (f : NewFile) : d.Unchanged (d.add f) := by
  intro e he
  unfold add at he ⊢
  split at he
  · rfl
  · cases he

theorem unchanged_unmarshal (d : Disk) (data : Bytes) : d.Unchanged (d.unmarshal data) := by
  intro e he
  unfold unmarshal at he ⊢
  split at he
  · cases he
  · rfl

section Device

variable {ε : Type}

theorem unchanged_addFrom (d : Disk) (contents : Except ε Bytes) (name : Bytes) (type : FileType)
    (mode : FileMode) : d.Unchanged (d.addFrom contents name type mode) := by
  cases contents with
  | error failure => exact fun _ _ => rfl
  | ok data =>
    have hadd := d.unchanged_add ⟨name, type, mode, data⟩
    simp only [addFrom]
    split
    · next e d' heq =>
      rw [heq] at hadd
      exact fun _ _ => hadd e rfl
    · exact fun _ he => by cases he

theorem unchanged_unmarshalFrom (d : Disk) (image : Except ε Bytes) :
    d.Unchanged (d.unmarshalFrom image) := by
  cases image with
  | error failure => exact fun _ _ => rfl
  | ok data =>
    have hload := d.unchanged_unmarshal data
    simp only [unmarshalFrom]
    split
    · next e d' heq =>
      rw [heq] at hload
      exact fun _ _ => hload e rfl
    · exact fun _ he => by cases he

/-- An update of a disk from a device that fails with `ε`. -/
inductive Update (ε : Type) where
  | add (contents : Except ε Bytes) (name : Bytes) (type : FileType) (mode : FileMode)
  | load (image : Except ε Bytes)

inductive Reply (ε : Type) where
  | added (r : Except (TransferError ε Error) Placement)
  | loaded (r : Except (TransferError ε Cause) Unit)

def Reply.isFailure : Reply ε → Bool
  | added (.error _) | loaded (.error _) => true
  | added (.ok _) | loaded (.ok _) => false

def Update.run (u : Update ε) (d : Disk) : Reply ε × Disk :=
  match u with
  | add contents name type mode =>
    let r := d.addFrom contents name type mode
    (.added r.1, r.2)
  | load image =>
    let r := d.unmarshalFrom image
    (.loaded r.1, r.2)

def runAll (d : Disk) : List (Update ε) → List (Reply ε) × Disk
  | [] => ([], d)
  | u :: us =>
    let r := (u.run d).2.runAll us
    ((u.run d).1 :: r.1, r.2)

/-- Those of some updates that do not fail when they are made one after the other. -/
def effective (d : Disk) : List (Update ε) → List (Update ε)
  | [] => []
  | u :: us =>
    if (u.run d).1.isFailure then (u.run d).2.effective us else u :: (u.run d).2.effective us

theorem Update.run_of_isFailure {u : Update ε} {d : Disk} (h : (u.run d).1.isFailure = true) :
    (u.run d).2 = d := by
  cases u with
  | add contents name type mode =>
    have hadd := d.unchanged_addFrom contents name type mode
    simp only [run] at h ⊢
    cases hr : (d.addFrom contents name type mode).1 with
    | error e => exact hadd e hr
    | ok p => rw [hr] at h; cases h
  | load image =>
    have hload := d.unchanged_unmarshalFrom image
    simp only [run] at h ⊢
    cases hr : (d.unmarshalFrom image).1 with
    | error e => exact hload e hr
    | ok p => rw [hr] at h; cases h

/-- A history without the updates that fail. -/
theorem runAll_effective (d : Disk) (us : List (Update ε)) : d.runAll (d.effective us) =
    ((d.runAll us).1.filter (fun r => !r.isFailure), (d.runAll us).2) := by
  induction us generalizing d with
  | nil => rfl
  | cons u us ih =>
    by_cases hu : (u.run d).1.isFailure = true
    · simp [effective, runAll, hu, Update.run_of_isFailure hu, ih]
    · simp [effective, runAll, hu, ih]

end Device

end Disk

namespace Script.Build

open Text

/-- An outcome of a call that leaves the disk of a build alone if the call failed. -/
def Spares (b : Build) (o : Outcome) : Prop :=
  ∀ e, o.1 = .error e → o.2.disk = b.disk

theorem spares_error (b : Build) (e : Failure) : b.Spares (.error e, b) :=
  fun _ _ => rfl

theorem spares_ok (b b' : Build) (v : Value) : b.Spares (.ok v, b') :=
  fun _ he => by cases he

theorem spares_addData (b : Build) (contents : Except Store.FileError Bytes) (name : Bytes)
    (type : Disk.FileType) (mode : Disk.FileMode) :
    b.Spares (b.addData contents name type mode) := by
  have hadd := b.disk.unchanged_addFrom contents name type mode
  unfold addData
  split
  · next e disk heq =>
    rw [heq] at hadd
    exact fun _ _ => hadd _ rfl
  · next e disk heq =>
    rw [heq] at hadd
    exact fun _ _ => hadd _ rfl
  · exact b.spares_ok _ _

theorem spares_assembleText (b : Build) (path source : Bytes) (defines : Option Value) :
    b.Spares (b.assembleText path source defines) := by
  unfold assembleText
  split
  · exact b.spares_error _
  · dsimp only
    split
    · exact fun _ _ => rfl
    · split
      · exact fun _ _ => rfl
      · exact b.spares_ok _ _

theorem spares_packCode (b : Build) (args : List (Option Value)) : b.Spares (b.packCode args) := by
  unfold packCode
  split
  · split
    · exact b.spares_error _
    · exact b.spares_ok _ _
  · exact b.spares_error _

theorem spares_listFiles (b : Build) : b.Spares b.listFiles := by
  unfold listFiles
  split
  · exact b.spares_error _
  · exact b.spares_ok _ _

section World

variable {σ : Type} {read : Bytes → StateM σ (Except Store.FileError Bytes)}

/-- A call in a world that leaves the disk of a build alone if it fails there. -/
def Sparing (b : Build) (x : StateM σ Outcome) : Prop :=
  ∀ world, b.Spares (x.run world).1

theorem sparing_pure {b : Build} {o : Outcome} (h : b.Spares o) :
    b.Sparing (pure o : StateM σ Outcome) :=
  fun _ => h

/-- Whatever is read, what is done with it has to be sparing. -/
theorem sparing_bind {b : Build} {α : Type} (x : StateM σ α) {f : α → StateM σ Outcome}
    (h : ∀ a, b.Sparing (f a)) : b.Sparing (x >>= f) :=
  fun world => h (x.run world).1 (x.run world).2

theorem sparing_addFile (b : Build) (name : Bytes) (type : Disk.FileType) (mode : Disk.FileMode)
    (data : Contents) (path : Bytes) : b.Sparing (b.addFile read name type mode data path) := by
  unfold addFile
  cases data with
  | absent =>
    dsimp only
    split
    · exact sparing_pure (b.spares_error _)
    · exact sparing_bind _ fun contents => sparing_pure (b.spares_addData contents name type mode)
  | text contents =>
    dsimp only
    split
    · exact sparing_pure (b.spares_error _)
    · exact sparing_pure (b.spares_addData _ name type mode)
  | other => exact sparing_pure (b.spares_error _)

/-- Whether the binding of the arguments fails or delivers some, adding a file leaves the disk alone
if it fails. -/
theorem sparing_addDelivered (b : Build) (delivered : Except Failure FileArguments) :
    b.Sparing (b.addDelivered read delivered) := by
  cases delivered with
  | error e => exact sparing_pure (b.spares_error _)
  | ok args =>
    simp only [addDelivered, addFileNamed]
    split
    · exact sparing_pure (b.spares_error _)
    · exact sparing_pure (b.spares_error _)
    · exact sparing_addFile (b.note _ _) _ _ _ _ _

theorem sparing_assembleFile (b : Build) (args : List (Option Value)) :
    b.Sparing (b.assembleFile read args) := by
  unfold assembleFile
  split
  · apply sparing_bind
    intro contents
    cases contents with
    | error e => exact sparing_pure (b.spares_error _)
    | ok source => exact sparing_pure (b.spares_assembleText _ source _)
  · exact sparing_pure (b.spares_error _)

/-- Arguments that do not fit end a call before anything is done. -/
theorem sparing_bound {b : Build} {bound : Except CallError (List (Option Value))}
    {f : List (Option Value) → StateM σ Outcome} (h : ∀ args, b.Sparing (f args)) :
    b.Sparing (match bound with
      | .error e => pure (.error (.call e), b)
      | .ok args => f args) := by
  cases bound with
  | error e => exact sparing_pure (b.spares_error _)
  | ok args => exact h args

theorem sparing_apply (b : Build) (f : Builtin) (args : List Value)
    (kwargs : List (Bytes × Value)) : b.Sparing (b.apply read f args kwargs) := by
  cases f with
  | record =>
    simp only [apply]
    split
    · exact sparing_pure (b.spares_ok _ _)
    · exact sparing_pure (b.spares_error _)
  | print => exact sparing_bound fun _ => sparing_pure (b.spares_ok _ _)
  | assemble => exact sparing_bound b.sparing_assembleFile
  | envelope => exact sparing_bound fun _ => sparing_pure (b.spares_packCode _)
  | addFile => exact sparing_bound fun args => b.sparing_addDelivered (FileArguments.ofBound args)
  | files => exact sparing_bound fun _ => sparing_pure b.spares_listFiles

theorem sparing_call (b : Build) (c : Call) : b.Sparing (b.call read c) := by
  unfold call
  split
  · exact sparing_pure (b.spares_error _)
  · exact b.sparing_apply _ _ _
  · exact sparing_pure (b.spares_error _)

theorem run_runCalls_cons (b : Build) (c : Call) (calls : List Call) (world : σ) :
    (b.runCalls read (c :: calls)).run world =
      match (b.call read c).run world with
      | ((.error e, b'), world') => ((.error e, b'), world')
      | ((.ok v, b'), world') => ((b'.save c v).runCalls read calls).run world' := by
  rw [runCalls, StateT.run_bind]
  rcases (b.call read c).run world with ⟨⟨e | v, b'⟩, world'⟩ <;> rfl

/-- A script that fails has made some calls that succeed and then one that fails, which leaves the
disk of the calls before it. -/
theorem runCalls_error {calls : List Call} {b b' : Build} {world world' : σ} {e : Failure}
    (h : (b.runCalls read calls).run world = ((.error e, b'), world')) :
    ∃ earlier c rest b₀ world₀, calls = earlier ++ c :: rest ∧
      (b.runCalls read earlier).run world = ((.ok (), b₀), world₀) ∧
      (b₀.call read c).run world₀ = ((.error e, b'), world') ∧ b'.disk = b₀.disk := by
  induction calls generalizing b world with
  | nil => cases h
  | cons c calls ih =>
    rw [run_runCalls_cons] at h
    -- Either the first call fails, or it is one of the earlier calls of a failure further down.
    rcases hcall : (b.call read c).run world with ⟨⟨f | v, b₁⟩, world₁⟩
    · rw [hcall] at h
      cases h
      have hdisk : b.Spares ((b.call read c).run world).1 := b.sparing_call c world
      rw [hcall] at hdisk
      exact ⟨[], c, calls, b, world, rfl, rfl, hcall, hdisk e rfl⟩
    · rw [hcall] at h
      obtain ⟨earlier, d, rest, b₀, world₀, rfl, hrun, hfail, hdisk⟩ := ih h
      refine ⟨c :: earlier, d, rest, b₀, world₀, rfl, ?_, hfail, hdisk⟩
      rw [run_runCalls_cons, hcall]
      exact hrun

end World

/-- An update of a disk that fails changes nothing: not if a file is added, not if an image is
loaded, not in a history of both, and not in a script, whatever binds the arguments of its calls. -/
theorem failed_unchanged {ε σ : Type} (read : Bytes → StateM σ (Except Store.FileError Bytes)) :
    (∀ (d : Disk) (f : Disk.NewFile), d.Unchanged (d.add f)) ∧
    (∀ (d : Disk) (contents : Except ε Bytes) (name : Bytes) (type : Disk.FileType)
      (mode : Disk.FileMode), d.Unchanged (d.addFrom contents name type mode)) ∧
    (∀ (d : Disk) (image : Except ε Bytes), d.Unchanged (d.unmarshalFrom image)) ∧
    (∀ (d : Disk) (us : List (Disk.Update ε)), d.runAll (d.effective us) =
      ((d.runAll us).1.filter (fun r => !r.isFailure), (d.runAll us).2)) ∧
    (∀ (b : Build) (delivered : Except Failure FileArguments),
      b.Sparing (b.addDelivered read delivered)) ∧
    (∀ (b : Build) (args : List Value) (kwargs : List (Bytes × Value)),
      b.Sparing (b.apply read .addFile args kwargs)) ∧
    ∀ (b b' : Build) (calls : List Call) (world world' : σ) (e : Failure),
      (b.runCalls read calls).run world = ((.error e, b'), world') →
      ∃ earlier c rest b₀ world₀, calls = earlier ++ c :: rest ∧
        (b.runCalls read earlier).run world = ((.ok (), b₀), world₀) ∧
        (b₀.call read c).run world₀ = ((.error e, b'), world') ∧ b'.disk = b₀.disk :=
  ⟨Disk.unchanged_add, Disk.unchanged_addFrom, Disk.unchanged_unmarshalFrom,
    Disk.runAll_effective, sparing_addDelivered,
    fun b args kwargs => b.sparing_apply .addFile args kwargs,
    fun _ _ _ _ _ _ h => runCalls_error h⟩

/-- A script whose second call gives a file both contents and a path. -/
def ambiguousCalls : List Call :=
  [{ callee := { text := ofString "print" }, args := [.string (ofString "start")] },
    { callee := { text := ofString "add_file" }
      args := [.string (ofString "main.bin"), .string (ofString "code"),
        .string (ofString "main.asm")] }]

def floatArguments : FileArguments where
  name := ofString "pi"
  data := .other (ofString "float")
  path := []
  type := Disk.FileType.data.label
  mode := Disk.FileMode.automatic.label

def emptyWorld (_ : Bytes) : StateM Unit (Except Store.FileError Bytes) :=
  return .ok []

theorem ambiguousCalls_unchanged :
    Disk.new.add ⟨ofString "longername", .data, .automatic, []⟩ =
      (.error ⟨ofString "longername", .nameTooLong⟩, Disk.new) ∧
    Disk.zero.unmarshalFrom (ε := Unit) (.ok []) = (.error (.refused .imageSize), Disk.zero) ∧
    (∃ b', ((Build.mk .zero ∅ {} #[]).addDelivered emptyWorld (.ok floatArguments)).run () =
      ((.error (.argument .addFile "data" (ofString "float")), b'), ()) ∧ b'.disk = .zero) ∧
    ∃ b' earlier c rest b₀, ambiguousCalls = earlier ++ c :: rest ∧
      ((Build.mk .new ∅ {} #[]).runCalls emptyWorld earlier).run () = ((.ok (), b₀), ()) ∧
      (b₀.call emptyWorld c).run () =
        ((.error (.argument .addFile "path" (ofString "main.asm")), b'), ()) ∧
      b'.disk = b₀.disk := by
  obtain ⟨hadd, -, hload, -, hdelivered, -, hscript⟩ := failed_unchanged (ε := Unit) emptyWorld
  refine ⟨?_, ?_, ?_, ?_⟩
  · have hname : Disk.dirName (ofString "longername") = .error .nameTooLong := by decide +kernel
    have hfirst : (Disk.new.add ⟨ofString "longername", .data, .automatic, []⟩).1 =
        .error ⟨ofString "longername", .nameTooLong⟩ := by
      simp [Disk.add, Disk.place, hname, bind, Except.bind]
    exact Prod.ext hfirst (hadd _ _ _ hfirst)
  · have hfirst : (Disk.zero.unmarshalFrom (ε := Unit) (.ok [])).1 =
        .error (.refused .imageSize) := by
      simp [Disk.unmarshalFrom, Disk.unmarshal, Disk.ofImage?, Disk.imageSize]
    exact Prod.ext hfirst (hload _ _ _ hfirst)
  · exact ⟨_, rfl, hdelivered ⟨.zero, ∅, {}, #[]⟩ (.ok floatArguments) () _ rfl⟩
  · have hrun (d : Disk) : ∃ b', ((Build.mk d ∅ {} #[]).runCalls emptyWorld ambiguousCalls).run () =
        ((.error (.argument .addFile "path" (ofString "main.asm")), b'), ()) := ⟨_, rfl⟩
    obtain ⟨b', hb'⟩ := hrun .new
    obtain ⟨earlier, c, rest, b₀, world₀, h⟩ := hscript _ _ _ _ _ _ hb'
    exact ⟨b', earlier, c, rest, b₀, h⟩

end Script.Build

end Forge6809
