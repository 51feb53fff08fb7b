import RenderScript.Foundation.ByteMemory

/-!
# Script creation of the CPU reference driver

`createScript` of rsCpuCore.cpp with `init` and the destructor of `RsdCpuScriptImpl`, in both
builds. The default build compiles bitcode with bcc. The compatibility build loads a shared
library and reads its `.rs.info` symbol.

The answers of bcc, the loader and the allocator are data of the call. What is stored in the
arrays is left out, and so are the object variables that the destructor clears.
-/

namespace RenderScript.ScriptInit
open ByteMemory (Memory)

/-- The members of `RsdCpuScriptImpl` that own something. -/
inductive Resource where
  | mCompilerContext
  | mCompilerDriver
  | mExecutable
  | mScriptSO
  | mInvokeFunctions
  | mForEachFunctions
  | mFieldAddress
  | mFieldIsObject
  | mForEachSignatures
  | mBoundAllocs
  deriving DecidableEq

/-- `held` has the members that are not `NULL`. The counts are bookkeeping. -/
structure State where
  locked : Bool := false
  held : Resource → Bool := fun _ => false
  acquired : Resource → Nat := fun _ => 0
  released : Resource → Nat := fun _ => 0

namespace State

def lockMutex (s : State) : State := { s with locked := true }

def unlockMutex (s : State) : State := { s with locked := false }

def acquire (s : State) (r : Resource) : State :=
  { s with held := Function.update s.held r true, acquired := Function.update s.acquired r (s.acquired r + 1) }

/-- `delete`, `delete[]` or `dlclose` of a member. The member keeps its value. -/
def release (s : State) (r : Resource) : State :=
  if s.held r then { s with released := Function.update s.released r (s.released r + 1) } else s

end State

def MAXLINE : Nat := 500

def chars (text : String) : List UInt8 := text.toList.map fun c => c.toNat.toUInt8

/-- The loop of `strgets`, with the number of turns that are left. -/
def copyLine (rsInfo : Memory) : Nat → Nat → List UInt8 × Nat
  | 0, pos => ([], pos)
  | turns + 1, pos =>
    if rsInfo pos = 0 then ([], pos + 1)
    else if rsInfo pos = 10 then ([10], pos + 1)
    else
      let rest := copyLine rsInfo turns (pos + 1)
      (rsInfo pos :: rest.1, rest.2)

/-- The line and the position behind it. A line that the terminating zero ends leaves the position
behind that zero, where other data of the library follows. -/
def strgets (rsInfo : Memory) (pos : Nat) : Option (List UInt8 × Nat) :=
  if rsInfo pos = 0 then none else some (copyLine rsInfo (MAXLINE - 1) pos)

/-- `strrchr` for the newline and the zero that is put there. -/
def cutNewline (line : List UInt8) : List UInt8 :=
  if 10 ∈ line then (line.reverse.dropWhile (· ≠ 10)).tail.reverse else line

def isspace (c : UInt8) : Bool := c = 32 || (9 ≤ c && c ≤ 13)

def isdigit (c : UInt8) : Bool := 48 ≤ c && c ≤ 57

def scanText : List UInt8 → List UInt8 → Option (List UInt8)
  | [], input => some input
  | f :: format, input =>
    if isspace f then scanText format (input.dropWhile isspace)
    else
      match input with
      | [] => none
      | c :: rest => if c = f then scanText format rest else none

/-- `%u` into an integer of so many bits, by way of `strtoumax`. -/
def scanUnsigned (bits : Nat) (input : List UInt8) : Option (Nat × List UInt8) :=
  let input := input.dropWhile isspace
  let negative := input.head? = some 45
  let digits := if negative ∨ input.head? = some 43 then input.tail else input
  let magnitude : Nat :=
    (digits.takeWhile isdigit).foldl (fun n c => 10 * n + (c.toNat - 48)) 0
  if digits.takeWhile isdigit = [] then none
  else
    let value :=
      if 2 ^ 64 ≤ magnitude then 2 ^ 64 - 1
      else if negative then (2 ^ 64 - magnitude) % 2 ^ 64
      else magnitude
    some (value % 2 ^ bits, digits.dropWhile isdigit)

/-- `%500s`; no line is that long. -/
def scanWord (input : List UInt8) : Option (List UInt8) :=
  let word := (input.dropWhile isspace).takeWhile (!isspace ·)
  if word = [] then none else some word

/-- `"%u - %500s"` -/
def scanForEach (line : List UInt8) : Option (Nat × List UInt8) := do
  let (tmpSig, rest) ← scanUnsigned 32 line
  let rest ← scanText (chars " - ") rest
  let tmpName ← scanWord rest
  return (tmpSig, tmpName)

/-- A loaded library. `dlsym` gives the memory that starts at a symbol, `memory` says which arrays
`new` finds room for, and `sizeBits` is the width of `size_t`. -/
structure Library where
  dlsym : List UInt8 → Option Memory
  memory : Resource → Bool
  sizeBits : Nat

/-- Statements up to the label `error`: no result stands for the jump there. -/
abbrev Init := OptionT (StateM State)

def orError {α : Type} (result : Option α) : Init α := OptionT.mk (pure result)

def acquire (r : Resource) : Init Unit := OptionT.lift (modify (State.acquire · r))

namespace Library

def EXPORT_VAR_STR : List UInt8 := chars "exportVarCount: "

def EXPORT_FUNC_STR : List UInt8 := chars "exportFuncCount: "

def EXPORT_FOREACH_STR : List UInt8 := chars "exportForEachCount: "

def OBJECT_SLOT_STR : List UInt8 := chars "objectSlotCount: "

def new (library : Library) (r : Resource) : Init Unit :=
  if library.memory r then acquire r else orError none

def scanCount (library : Library) (name line : List UInt8) : Option Nat := do
  let rest ← scanText name line
  let (count, _) ← scanUnsigned library.sizeBits rest
  return count

def readCount (library : Library) (name : List UInt8) (rsInfo : Memory) (pos : Nat) :
    Option (Nat × Nat) := do
  let (line, pos) ← strgets rsInfo pos
  let count ← library.scanCount name line
  return (count, pos)

/-- A loop over `count` lines, the first of them with number `i`. It ends early where `accepts`
fails. -/
def readLines (accepts : Nat → List UInt8 → Bool) (rsInfo : Memory) : Nat → Nat → Nat → Option Nat
  | 0, _, pos => some pos
  | count + 1, i, pos => do
      let (line, pos) ← strgets rsInfo pos
      if accepts i line then readLines accepts rsInfo count (i + 1) pos else none

def acceptsVar (_ : Nat) (_ : List UInt8) : Bool := true

def acceptsFunc (library : Library) (_ : Nat) (line : List UInt8) : Bool :=
  (library.dlsym (cutNewline line)).isSome

/-- `strncat` for the suffix of expanded kernels. -/
def expandName (tmpName : List UInt8) : List UInt8 :=
  tmpName ++ (chars ".expand").take (MAXLINE - 1 - tmpName.length)

def acceptsForEach (library : Library) (i : Nat) (line : List UInt8) : Bool :=
  match scanForEach line with
  | none => false
  | some (_, tmpName) => i == 0 || (library.dlsym (expandName tmpName)).isSome

def acceptsSlot (_ : Nat) (line : List UInt8) : Bool := (scanUnsigned 32 line).isSome

def newArrays (library : Library) (arrays : List Resource) (count : Nat) : Init Unit :=
  if 0 < count then arrays.forM library.new else pure ()

def initSection (library : Library) (name : List UInt8) (arrays : List Resource)
    (accepts : Nat → List UInt8 → Bool) (rsInfo : Memory) (pos : Nat) : Init (Nat × Nat) := do
  let (count, pos) ← orError (library.readCount name rsInfo pos)
  library.newArrays arrays count
  let pos ← orError (readLines accepts rsInfo count 0 pos)
  return (count, pos)

def initVars (library : Library) : Memory → Nat → Init (Nat × Nat) :=
  library.initSection EXPORT_VAR_STR [.mFieldIsObject, .mFieldAddress] acceptsVar

def initFuncs (library : Library) : Memory → Nat → Init (Nat × Nat) :=
  library.initSection EXPORT_FUNC_STR [.mInvokeFunctions] library.acceptsFunc

def initForEachs (library : Library) : Memory → Nat → Init (Nat × Nat) :=
  library.initSection EXPORT_FOREACH_STR [.mForEachSignatures, .mForEachFunctions]
    library.acceptsForEach

def initSlots (library : Library) : Memory → Nat → Init (Nat × Nat) :=
  library.initSection OBJECT_SLOT_STR [] acceptsSlot

/-- What `init` does once the library is loaded. The last array is not checked for `NULL`. -/
def initInfo (library : Library) : Init Unit := do
  let rsInfo ← orError (library.dlsym (chars ".rs.info"))
  let (varCount, pos) ← library.initVars rsInfo 0
  let (_, pos) ← library.initFuncs rsInfo pos
  let (_, pos) ← library.initForEachs rsInfo pos
  let _ ← library.initSlots rsInfo pos
  if 0 < varCount then
    acquire .mBoundAllocs

end Library

inductive RSFloatPrecision where
  | RS_FP_Imprecise
  | RS_FP_Relaxed
  | RS_FP_Full
  | unknown
  deriving DecidableEq

/-- What bcc answers. `exportVarNames` is the number of exported variables. -/
structure Bcc where
  newContext : Bool
  newDriver : Bool
  extract : Bool
  getRSFloatPrecision : RSFloatPrecision
  debugContext : Bool
  isForceRecompile : Bool
  loadCached : Bool
  build : Bool
  loadBuilt : Bool
  exportVarNames : Nat

namespace Bcc

def exec (b : Bcc) : Bool :=
  let cached := !b.debugContext && !b.isForceRecompile && b.loadCached
  if cached then true else b.build && b.loadBuilt

def init (b : Bcc) (s : State) : Bool × State :=
  let s := s.lockMutex
  if !b.newContext then (false, s.unlockMutex)
  else
    let s := s.acquire .mCompilerContext
    if !b.newDriver then (false, s.unlockMutex)
    else
      let s := s.acquire .mCompilerDriver
      if !b.extract then (false, s)
      else if b.getRSFloatPrecision = .unknown then (false, s)
      else if !b.exec then (false, s.unlockMutex)
      else
        let s := s.acquire .mExecutable
        let s := if 0 < b.exportVarNames then s.acquire .mBoundAllocs else s
        (true, s.unlockMutex)

end Bcc

/-- The build with its answers; `loadSharedLibrary` may find no library. -/
inductive Build where
  | bcc (answers : Bcc)
  | compatibility (loadSharedLibrary : Option Library)

namespace Build

/-- What the label `error` of `init` releases, in its order. -/
def errorPath : List Resource :=
  [.mInvokeFunctions, .mForEachFunctions, .mFieldAddress, .mFieldIsObject, .mForEachSignatures, .mBoundAllocs, .mScriptSO]

def init (build : Build) (s : State) : Bool × State :=
  match build with
  | .bcc answers => answers.init s
  | .compatibility none => (false, errorPath.foldl State.release s.lockMutex.unlockMutex)
  | .compatibility (some library) =>
    match library.initInfo (s.lockMutex.acquire .mScriptSO) with
    | (some (), s) => (true, s.unlockMutex)
    | (none, s) => (false, errorPath.foldl State.release s.unlockMutex)

def destructor : Build → List Resource
  | .bcc _ => [.mCompilerContext, .mCompilerDriver, .mExecutable, .mBoundAllocs]
  | .compatibility _ =>
    [.mInvokeFunctions, .mForEachFunctions, .mFieldAddress, .mFieldIsObject, .mForEachSignatures, .mBoundAllocs, .mScriptSO]

def createScript (build : Build) : Bool × State :=
  match build.init {} with
  | (true, s) => (true, s)
  | (false, s) => (false, build.destructor.foldl State.release s)

end Build

def Tidy (result : Bool × State) : Prop :=
  result.2.locked = false ∧
    (result.1 = false → ∀ r, result.2.acquired r ≤ 1 ∧ result.2.released r = result.2.acquired r)

def behind (rsInfo : Memory) : Nat → Option Nat
  | 0 => some 0
  | k + 1 => (behind rsInfo k).bind fun pos => (strgets rsInfo pos).map (·.2)

def lineAt (rsInfo : Memory) (k : Nat) : Option (List UInt8) :=
  (behind rsInfo k).bind fun pos => (strgets rsInfo pos).map (·.1)

/-- Line `k` has a count, as many acceptable lines follow, and the arrays for them can be had. -/
structure Library.Section (library : Library) (name : List UInt8) (arrays : List Resource)
    (accepts : Nat → List UInt8 → Bool) (rsInfo : Memory) (k count : Nat) : Prop where
  counted : ∃ line, lineAt rsInfo k = some line ∧ library.scanCount name line = some count
  listed : ∀ i < count, ∃ line, lineAt rsInfo (k + 1 + i) = some line ∧ accepts i line = true
  room : 0 < count → ∀ r ∈ arrays, library.memory r = true

def Library.Complete (library : Library) : Prop :=
  ∃ rsInfo varCount funcCount forEachCount objectSlotCount,
    library.dlsym (chars ".rs.info") = some rsInfo ∧
    library.Section EXPORT_VAR_STR [.mFieldIsObject, .mFieldAddress] acceptsVar rsInfo 0 varCount ∧
    library.Section EXPORT_FUNC_STR [.mInvokeFunctions] library.acceptsFunc rsInfo
      (1 + varCount) funcCount ∧
    library.Section EXPORT_FOREACH_STR [.mForEachSignatures, .mForEachFunctions]
      library.acceptsForEach rsInfo (1 + varCount + 1 + funcCount) forEachCount ∧
    library.Section OBJECT_SLOT_STR [] acceptsSlot rsInfo
      (1 + varCount + 1 + funcCount + 1 + forEachCount) objectSlotCount

/-- A state of `init` before its exit: what the list has was acquired, and nothing was released. -/
def State.holding (owned : List Resource) : State :=
  { locked := true, held := fun r => r ∈ owned, acquired := fun r => owned.count r }

open List Option

theorem State.acquire_holding (owned : List Resource) (r : Resource) :
    (State.holding owned).acquire r = State.holding (r :: owned) := by
  have held : Function.update (State.holding owned).held r true = (State.holding (r :: owned)).held := by
    funext other
    by_cases eq : other = r
    · subst eq
      simp [State.holding]
    · simp [State.holding, eq]
  have acquired : Function.update (State.holding owned).acquired r ((State.holding owned).acquired r + 1) =
      (State.holding (r :: owned)).acquired := by
    funext other
    by_cases eq : other = r
    · subst eq
      simp [State.holding]
    · simp [State.holding, eq, count_cons, Ne.symm eq]
  simp only [State.acquire, held, acquired]
  rfl

namespace Init

variable {α β : Type}

theorem bind_apply (program : Init α) (next : α → Init β) (s : State) : (program >>= next) s =
      match program s with
      | (some value, s') => next value s'
      | (none, s') => (none, s') := by
  simp only [bind, OptionT.bind, OptionT.mk, StateT.bind]
  rcases program s with ⟨_ | value, s'⟩ <;> rfl

def Returns (program : Init α) (result : α → Prop) : Prop :=
  ∀ s value, (program s).1 = some value ↔ result value

theorem returns_pure (value : α) : Returns (pure value : Init α) (value = ·) := by
  intro s other
  exact some_inj

theorem returns_orError (value : Option α) : Returns (orError value) (value = some ·) := by
  intro s other
  exact Iff.rfl

theorem returns_acquire (r : Resource) : Returns (acquire r) fun _ => True := by
  intro s value
  exact ⟨fun _ => trivial, fun _ => rfl⟩

theorem Returns.congr {program : Init α} {result other : α → Prop} (returns : Returns program result)
    (same : ∀ value, result value ↔ other value) : Returns program other :=
  fun s value => (returns s value).trans (same value)

variable {program : Init α} {next : α → Init β}

theorem Returns.bind {first : α → Prop} {second : α → β → Prop} (returns : Returns program first)
    (then_ : ∀ value, first value → Returns (next value) (second value)) :
    Returns (program >>= next) fun result => ∃ value, first value ∧ second value result := by
  intro s result
  rw [bind_apply]
  rcases outcome : program s with ⟨_ | value, s'⟩
  · constructor
    · intro impossible
      cases impossible
    · rintro ⟨value, holds, _⟩
      have ret := (returns s value).mpr holds
      rw [outcome] at ret
      cases ret
  · have holds := (returns s value).mp (by rw [outcome])
    constructor
    · intro ret
      exact ⟨value, holds, (then_ value holds s' result).mp ret⟩
    · rintro ⟨other, holds', ret⟩
      have eq := (returns s other).mpr holds'
      rw [outcome] at eq
      cases eq
      exact (then_ value holds s' result).mpr ret

/-- The statements acquire some of these, each at most once and in this order. -/
def Acquires (program : Init α) (resources : List Resource) : Prop :=
  ∀ owned, ∃ more, more.reverse.Sublist resources ∧
    (program (.holding owned)).2 = .holding (more ++ owned)

theorem acquires_pure (value : α) : Acquires (pure value : Init α) [] := fun _ => ⟨[], nil_sublist _, rfl⟩

theorem acquires_orError (value : Option α) : Acquires (orError value) [] := fun _ => ⟨[], nil_sublist _, rfl⟩

theorem acquires_acquire (r : Resource) : Acquires (acquire r) [r] :=
  fun owned => ⟨[r], List.Sublist.refl _, State.acquire_holding owned r⟩

theorem Acquires.bind {first second : List Resource}
    (acquires : Acquires program first) (then_ : ∀ value, Acquires (next value) second) :
    Acquires (program >>= next) (first ++ second) := by
  intro owned
  obtain ⟨more, among, after⟩ := acquires owned
  rw [bind_apply]
  rcases outcome : program (.holding owned) with ⟨_ | value, s'⟩
  · rw [outcome] at after
    exact ⟨more, among.trans (sublist_append_left _ _), after⟩
  · rw [outcome] at after
    subst after
    obtain ⟨later, amongLater, afterLater⟩ := then_ value (more ++ owned)
    refine ⟨later ++ more, ?_, ?_⟩
    · rw [reverse_append]
      exact among.append amongLater
    · rw [append_assoc]
      exact afterLater

theorem Acquires.mono {resources others : List Resource}
    (acquires : Acquires program resources) (among : resources.Sublist others) :
    Acquires program others := by
  intro owned
  obtain ⟨more, sub, after⟩ := acquires owned
  exact ⟨more, sub.trans among, after⟩

end Init

namespace Library
open Init

variable (library : Library)

theorem returns_new (r : Resource) : Returns (library.new r) fun _ => library.memory r = true := by
  unfold new
  split
  · exact (returns_acquire r).congr (by simp [*])
  · exact (returns_orError none).congr (by simp [*])

theorem returns_forM_new (arrays : List Resource) :
    Returns (arrays.forM library.new) fun _ => ∀ r ∈ arrays, library.memory r = true := by
  induction arrays with
  | nil => exact (returns_pure ()).congr (by simp)
  | cons r rest ih => exact ((library.returns_new r).bind fun _ _ => ih).congr (by simp)

theorem returns_newArrays (arrays : List Resource) (count : Nat) : Returns (library.newArrays arrays count)
      fun _ => 0 < count → ∀ r ∈ arrays, library.memory r = true := by
  unfold newArrays
  split
  · exact (library.returns_forM_new arrays).congr (by simp [*])
  · exact (returns_pure ()).congr (by simp [*])

theorem acquires_new (r : Resource) : Acquires (library.new r) [r] := by
  unfold new
  split
  · exact acquires_acquire r
  · exact (acquires_orError none).mono (nil_sublist _)

theorem acquires_newArrays (arrays : List Resource) (count : Nat) : Acquires (library.newArrays arrays count) arrays := by
  unfold newArrays
  split
  · induction arrays with
    | nil => exact acquires_pure ()
    | cons r rest ih => exact (library.acquires_new r).bind fun _ => ih
  · exact (acquires_pure ()).mono (nil_sublist _)

theorem acquires_initSection (name : List UInt8) (arrays : List Resource)
    (accepts : Nat → List UInt8 → Bool) (rsInfo : Memory) (pos : Nat) :
    Acquires (library.initSection name arrays accepts rsInfo pos) arrays := by
  have acquires := (acquires_orError (library.readCount name rsInfo pos)).bind fun read =>
    (library.acquires_newArrays arrays read.1).bind fun _ =>
      (acquires_orError (readLines accepts rsInfo read.1 0 read.2)).bind fun pos =>
        acquires_pure (read.1, pos)
  simp only [append_nil, nil_append] at acquires
  exact acquires

section

variable {library : Library} {rsInfo : Memory} {k pos count : Nat}

theorem readCount_iff (place : behind rsInfo k = some pos) (name : List UInt8) (count after : Nat) :
    library.readCount name rsInfo pos = some (count, after) ↔
      (∃ line, lineAt rsInfo k = some line ∧ library.scanCount name line = some count) ∧ behind rsInfo (k + 1) = some after := by
  simp only [readCount, lineAt, behind, place, bind_some]
  cases strgets rsInfo pos with
  | none => simp
  | some read => simp [bind_eq_some_iff]

theorem readLines_iff (place : behind rsInfo k = some pos) (accepts : Nat → List UInt8 → Bool) (count i after : Nat) :
    readLines accepts rsInfo count i pos = some after ↔
      (∀ j < count, ∃ line, lineAt rsInfo (k + j) = some line ∧ accepts (i + j) line = true) ∧
        behind rsInfo (k + count) = some after := by
  induction count generalizing k i pos with
  | zero => simp [readLines, place]
  | succ count ih =>
    rw [Nat.forall_lt_succ_left]
    simp only [add_zero, ← add_assoc, add_right_comm k _ 1, add_right_comm i _ 1]
    cases read : strgets rsInfo pos with
    | none =>
      have missing : lineAt rsInfo k = none := by simp [lineAt, place, read]
      simp [readLines, read, missing]
    | some next =>
      have found : lineAt rsInfo k = some next.1 := by simp [lineAt, place, read]
      have placeNext : behind rsInfo (k + 1) = some next.2 := by simp [behind, place, read]
      cases accepted : accepts i next.1 with
      | false => simp [readLines, read, found, accepted]
      | true =>
        simp only [readLines, read, bind_eq_bind, bind_some, accepted, if_true,
          found, Option.some.injEq, exists_eq_left', true_and]
        exact ih placeNext (i + 1)

theorem behind_of_lineAt {line : List UInt8} (found : lineAt rsInfo k = some line) :
    ∃ after, behind rsInfo (k + 1) = some after := by
  obtain ⟨pos, place, read⟩ := bind_eq_some_iff.mp found
  obtain ⟨next, read, _⟩ := map_eq_some_iff.mp read
  exact ⟨next.2, by simp [behind, place, read]⟩

theorem Section.behind_last {name : List UInt8} {arrays : List Resource} {accepts : Nat → List UInt8 → Bool}
    (described : library.Section name arrays accepts rsInfo k count) :
    ∃ after, behind rsInfo (k + 1 + count) = some after := by
  cases count with
  | zero =>
    obtain ⟨line, found, _⟩ := described.counted
    exact behind_of_lineAt found
  | succ count =>
    obtain ⟨line, found, _⟩ := described.listed count (Nat.lt_succ_self count)
    exact behind_of_lineAt found

variable (library) in
theorem returns_initSection (place : behind rsInfo k = some pos) (name : List UInt8)
    (arrays : List Resource) (accepts : Nat → List UInt8 → Bool) :
    Returns (library.initSection name arrays accepts rsInfo pos) fun result =>
      library.Section name arrays accepts rsInfo k result.1 ∧ behind rsInfo (k + 1 + result.1) = some result.2 := by
  have returns := (returns_orError (library.readCount name rsInfo pos)).bind fun read _ =>
    (library.returns_newArrays arrays read.1).bind fun _ _ =>
      (returns_orError (readLines accepts rsInfo read.1 0 read.2)).bind fun pos _ =>
        returns_pure (read.1, pos)
  refine Returns.congr returns ?_
  rintro ⟨count, after⟩
  constructor
  · rintro ⟨⟨_, mid⟩, read, _, room, _, readAll, eq⟩
    cases eq
    obtain ⟨counted, placeNext⟩ := (readCount_iff place name _ mid).mp read
    obtain ⟨mem, placeLast⟩ := (readLines_iff placeNext accepts _ 0 _).mp readAll
    simp only [zero_add] at mem
    exact ⟨⟨counted, mem, room⟩, placeLast⟩
  · rintro ⟨⟨counted, mem, room⟩, placeLast⟩
    obtain ⟨mid, placeNext⟩ : ∃ mid, behind rsInfo (k + 1) = some mid := by
      obtain ⟨line, found, _⟩ := counted
      exact behind_of_lineAt found
    refine ⟨(count, mid), (readCount_iff place name count mid).mpr ⟨counted, placeNext⟩, (), room, after, ?_, rfl⟩
    apply (readLines_iff placeNext accepts count 0 after).mpr
    simp only [zero_add]
    exact ⟨mem, placeLast⟩

end

theorem returns_initInfo : Returns library.initInfo fun _ => library.Complete := by
  have returns := (returns_orError (library.dlsym (chars ".rs.info"))).bind fun rsInfo _ =>
      (library.returns_initSection (show behind rsInfo 0 = some 0 from rfl) EXPORT_VAR_STR
        [.mFieldIsObject, .mFieldAddress] acceptsVar).bind fun vars readVars =>
      (library.returns_initSection readVars.2 EXPORT_FUNC_STR [.mInvokeFunctions]
        library.acceptsFunc).bind fun funcs readFuncs =>
      (library.returns_initSection readFuncs.2 EXPORT_FOREACH_STR
        [.mForEachSignatures, .mForEachFunctions] library.acceptsForEach).bind fun forEachs readForEachs =>
      (library.returns_initSection readForEachs.2 OBJECT_SLOT_STR [] acceptsSlot).bind fun _ _ =>
        show Returns (if 0 < vars.1 then acquire .mBoundAllocs else pure ()) fun _ => True from by
          split
          · exact returns_acquire _
          · exact (returns_pure ()).congr (by simp)
  refine Returns.congr returns ?_
  intro value
  constructor
  · rintro ⟨rsInfo, info, ⟨varCount, _⟩, ⟨vars, _⟩, ⟨funcCount, _⟩, ⟨funcs, _⟩,
      ⟨forEachCount, _⟩, ⟨forEachs, _⟩, ⟨objectSlotCount, _⟩, ⟨slots, _⟩, _⟩
    exact ⟨rsInfo, varCount, funcCount, forEachCount, objectSlotCount, info, vars, funcs, forEachs, slots⟩
  · rintro ⟨rsInfo, varCount, funcCount, forEachCount, objectSlotCount, info, vars, funcs, forEachs, slots⟩
    obtain ⟨afterVars, placeVars⟩ := vars.behind_last
    obtain ⟨afterFuncs, placeFuncs⟩ := funcs.behind_last
    obtain ⟨afterForEachs, placeForEachs⟩ := forEachs.behind_last
    obtain ⟨afterSlots, placeSlots⟩ := slots.behind_last
    exact ⟨rsInfo, info, (varCount, afterVars), ⟨vars, placeVars⟩, (funcCount, afterFuncs),
      ⟨funcs, placeFuncs⟩, (forEachCount, afterForEachs), ⟨forEachs, placeForEachs⟩,
      (objectSlotCount, afterSlots), ⟨slots, placeSlots⟩, trivial⟩

def scriptArrays : List Resource :=
  [.mFieldIsObject, .mFieldAddress, .mInvokeFunctions, .mForEachSignatures, .mForEachFunctions, .mBoundAllocs]

theorem acquires_initInfo : Acquires library.initInfo scriptArrays :=
  (acquires_orError (library.dlsym (chars ".rs.info"))).bind fun rsInfo =>
    (library.acquires_initSection EXPORT_VAR_STR [.mFieldIsObject, .mFieldAddress] acceptsVar rsInfo 0).bind fun vars =>
    (library.acquires_initSection EXPORT_FUNC_STR [.mInvokeFunctions] library.acceptsFunc rsInfo vars.2).bind fun funcs =>
    (library.acquires_initSection EXPORT_FOREACH_STR [.mForEachSignatures, .mForEachFunctions]
      library.acceptsForEach rsInfo funcs.2).bind fun forEachs =>
    (library.acquires_initSection OBJECT_SLOT_STR [] acceptsSlot rsInfo forEachs.2).bind fun _ =>
      show Acquires (if 0 < vars.1 then acquire .mBoundAllocs else pure ()) [.mBoundAllocs] from by
        split
        · exact acquires_acquire _
        · exact (acquires_pure ()).mono (nil_sublist _)

end Library

theorem foldl_release (resources : List Resource) (s : State) : resources.foldl State.release s = { s with
        released := fun r => s.released r + if s.held r then resources.count r else 0 } := by
  induction resources generalizing s with
  | nil => simp
  | cons first rest ih =>
    rw [foldl_cons, ih]
    cases held : s.held first with
    | false =>
      simp only [State.release, held, Bool.false_eq_true, if_false, State.mk.injEq, true_and]
      funext r
      by_cases eq : first = r
      · subst eq
        simp [held]
      · simp [eq]
    | true =>
      simp only [State.release, held, if_true, State.mk.injEq, true_and]
      funext r
      by_cases eq : first = r
      · subst eq
        simp [held, Nat.add_assoc, add_comm]
      · simp [eq, Ne.symm eq]

theorem lockMutex_initial : State.lockMutex {} = .holding [] := by
  simp [State.lockMutex, State.holding]

section

variable {owned resources : List Resource} (uniqueOwned : owned.Nodup) (unique : resources.Nodup)
  (among : owned ⊆ resources)

include uniqueOwned unique among

theorem count_released (r : Resource) : (if (State.holding owned).held r then resources.count r else 0) = owned.count r := by
  by_cases mem : r ∈ owned
  · simp [State.holding, mem, count_eq_one_of_mem uniqueOwned mem, count_eq_one_of_mem unique (among mem)]
  · simp [State.holding, mem, count_eq_zero_of_not_mem mem]

theorem tidy_of_released_once : Tidy (false, resources.foldl State.release (State.holding owned).unlockMutex) := by
  rw [foldl_release]
  refine ⟨rfl, fun _ r => ⟨nodup_iff_count_le_one.mp uniqueOwned r, ?_⟩⟩
  have once := count_released uniqueOwned unique among r
  simp only [State.unlockMutex, State.holding, zero_add] at once ⊢
  exact once

theorem released_twice (r : Resource) : (resources.foldl State.release
      (resources.foldl State.release (State.holding owned).unlockMutex)).released r = 2 * owned.count r := by
  have once := count_released uniqueOwned unique among r
  simp only [foldl_release, State.unlockMutex, State.holding, zero_add] at once ⊢
  exact (congrArg₂ (· + ·) once once).trans (two_mul _).symm

theorem not_tidy_of_released_twice {r : Resource} (mem : r ∈ owned) : ¬ Tidy (false, resources.foldl State.release
      (resources.foldl State.release (State.holding owned).unlockMutex)) := by
  intro tidy
  have once := (tidy.2 rfl r).2
  have twice := released_twice uniqueOwned unique among r
  have acquired : 0 < owned.count r := count_pos_iff.mpr mem
  have eq := once.symm.trans twice
  simp only [foldl_release, State.unlockMutex, State.holding] at eq
  omega

end

/-- With bcc: bitcode whose metadata is read and has a known precision, unless no compiler could be
made. In the compatibility build: no library, or one that is described completely. -/
def Build.Sound : Build → Prop
  | .bcc answers =>
    answers.newContext = true → answers.newDriver = true →
      answers.extract = true ∧ answers.getRSFloatPrecision ≠ .unknown
  | .compatibility none => True
  | .compatibility (some library) => library.Complete

theorem tidy_of_created {s : State} (unlocked : s.locked = false) : Tidy (true, s) := ⟨unlocked, fun failed => nomatch failed⟩

theorem not_tidy_of_locked (owned resources : List Resource) :
    ¬ Tidy (false, resources.foldl State.release (.holding owned)) := by
  rw [foldl_release]
  intro tidy
  exact nomatch tidy.1

theorem bcc_tidy_iff (answers : Bcc) : Tidy (Build.createScript (.bcc answers)) ↔ (Build.bcc answers).Sound := by
  simp only [Build.createScript, Build.init, Bcc.init, lockMutex_initial, State.acquire_holding, Build.Sound, Build.destructor]
  cases context : answers.newContext with
  | false =>
    exact iff_of_true (tidy_of_released_once (by decide) (by decide) (by decide)) (fun made => absurd made Bool.false_ne_true)
  | true =>
    cases driver : answers.newDriver with
    | false =>
      exact iff_of_true (tidy_of_released_once (by decide) (by decide) (by decide))
        (fun _ made => absurd made Bool.false_ne_true)
    | true =>
      cases extracted : answers.extract with
      | false =>
        exact iff_of_false (not_tidy_of_locked _ _) (fun sound => absurd (sound rfl rfl).1 Bool.false_ne_true)
      | true =>
        by_cases unknown : answers.getRSFloatPrecision = .unknown
        · refine iff_of_false ?_ (fun sound => (sound rfl rfl).2 unknown)
          simp only [unknown]
          exact not_tidy_of_locked _ _
        · refine iff_of_true ?_ (fun _ _ => ⟨rfl, unknown⟩)
          cases found : answers.exec with
          | false =>
            simp only [unknown]
            exact tidy_of_released_once (by decide) (by decide) (by decide)
          | true =>
            simp only [unknown]
            exact tidy_of_created rfl

theorem compatibility_tidy_iff (library : Library) :
    Tidy (Build.createScript (.compatibility (some library))) ↔ library.Complete := by
  have returns := library.returns_initInfo (State.holding [.mScriptSO])
  obtain ⟨more, among, after⟩ := library.acquires_initInfo [.mScriptSO]
  simp only [Build.createScript, Build.init, lockMutex_initial, State.acquire_holding]
  rcases outcome : library.initInfo (State.holding [.mScriptSO]) with ⟨_ | ⟨⟩, s⟩
  · rw [outcome] at returns after
    have incomplete : ¬ library.Complete := fun complete => nomatch (returns ()).mpr complete
    refine iff_of_false ?_ incomplete
    -- the handle of the library is closed by `error` and by the destructor
    subst after
    have order : (more ++ [Resource.mScriptSO]).reverse.Sublist (Resource.mScriptSO :: Library.scriptArrays) := by
      rw [reverse_append]
      exact among.cons_cons _
    have unique := nodup_reverse.mp (order.nodup (by decide))
    have inside : more ++ [Resource.mScriptSO] ⊆ Build.errorPath := by
      intro r mem
      have among : Resource.mScriptSO :: Library.scriptArrays ⊆ Build.errorPath := by decide
      exact among (order.subset (mem_reverse.mpr mem))
    exact not_tidy_of_released_twice unique (by decide) inside (mem_append_right more (mem_singleton.mpr rfl))
  · rw [outcome] at returns
    exact iff_of_true (tidy_of_created rfl) ((returns ()).mp rfl)

/-- Script creation is tidy for exactly the sound answers. -/
theorem script_creation_tidy_iff (build : Build) : Tidy build.createScript ↔ build.Sound := by
  match build with
  | .bcc answers => exact bcc_tidy_iff answers
  | .compatibility none =>
    exact iff_of_true (tidy_of_released_once nodup_nil (by decide) (nil_subset _)) trivial
  | .compatibility (some library) => exact compatibility_tidy_iff library

def rootLibrary : Library where
  dlsym name :=
    if name = chars ".rs.info" then
      some fun pos =>
        (chars "exportVarCount: 1\nx\nexportFuncCount: 0\nexportForEachCount: 1\n0 - root\n" ++
          chars "objectSlotCount: 0\n").getD pos 0
    else none
  memory _ := true
  sizeBits := 32

example : (Build.createScript (.compatibility (some rootLibrary))).1 = true := by decide +kernel

/-- Bitcode without metadata, and a library without a `.rs.info` symbol. -/
theorem script_creation_untidy : ¬ Tidy (Build.createScript (.bcc
      { newContext := true, newDriver := true, extract := false, getRSFloatPrecision := .RS_FP_Full,
        debugContext := false, isForceRecompile := false, loadCached := true, build := true,
        loadBuilt := true, exportVarNames := 0 })) ∧
    ¬ Tidy (Build.createScript (.compatibility (some
      { dlsym := fun _ => none, memory := fun _ => true, sizeBits := 32 }))) := by
  constructor
  · intro tidy
    exact absurd tidy.1 (by decide)
  · intro tidy
    exact absurd (tidy.2 (by decide) .mScriptSO).2 (by decide)

end RenderScript.ScriptInit
