import RenderScript.Commands.CommandExchange

/-!
# Senders and playback functions agree
-/

namespace RenderScript.Commands
open AlignedBytes ByteMemory List Option

/-!
## Writes that keep apart
-/

abbrev Write := Nat × List UInt8

def Write.region (w : Write) : Region := ⟨w.1, w.2.length⟩

variable {writes : List Write} {w : Write} {region other : Region} {s : Sending} {vt : VarType} {offset size : Nat}

def putAll (memory : Memory) (writes : List Write) : Memory :=
  writes.foldl (fun memory w => put memory w.1 w.2) memory

theorem read_put_same (memory : Memory) (w : Write) : read (put memory w.1 w.2) w.region = w.2 := by
  rw [put, Write.region, read_write_same]
  apply ext_getElem
  · simp
  · intro i inside within
    simp [getD_eq_getElem?_getD, within]

theorem read_put_apart (apart : w.region.Apart region) (memory : Memory) :
    read (put memory w.1 w.2) region = read memory region :=
  read_write_apart apart memory _

theorem read_putAll_apart (apart : ∀ w ∈ writes, w.region.Apart region) (memory : Memory) :
    read (putAll memory writes) region = read memory region := by
  induction writes generalizing memory with
  | nil => rfl
  | cons w rest ih =>
    obtain ⟨first, others⟩ := forall_mem_cons.mp apart
    exact (ih others _).trans (read_put_apart first memory)

theorem read_putAll (apart : writes.Pairwise fun w other => w.region.Apart other.region)
    (memory : Memory) (listed : w ∈ writes) : read (putAll memory writes) w.region = w.2 := by
  induction apart generalizing memory with
  | nil => cases listed
  | cons first _ ih =>
    rcases mem_cons.mp listed with rfl | later
    · exact (read_putAll_apart (fun other mem => (first other mem).symm) _).trans (read_put_same memory w)
    · exact ih _ later

theorem apart_of_le (before : region.start + region.length ≤ other.start) : region.Apart other := by
  intro loc first second
  exact Nat.not_lt_of_le (second.1) (first.2.trans_le before)

theorem length_read (memory : Memory) (region : Region) : (read memory region).length = region.length := by
  simp [ByteMemory.read]

theorem read_put_read (memory source : Memory) (inside : region.start + region.length ≤ size) :
    read (put memory 0 (read source ⟨0, size⟩)) region = read source region := by
  apply read_congr
  intro loc held
  have lt : loc < size := held.2.trans_le inside
  have length := length_read source ⟨0, size⟩
  have covered : (⟨0, (read source ⟨0, size⟩).length⟩ : Region).Holds loc :=
    ⟨Nat.zero_le _, by rw [length, zero_add]; exact lt⟩
  rw [put, write, if_pos covered, Nat.sub_zero]
  simp [ByteMemory.read, lt, getD_eq_getElem?_getD]

/-!
## Layout
-/

section

variable {sizeof : String → Nat} {params : List VarType} {position : Nat}

def Sized (sizeof : String → Nat) (params : List VarType) : Prop :=
  ∀ vt ∈ params, 0 < vt.size sizeof ∧ vt.size sizeof ≤ 8

theorem fieldsEnd_bound (sized : Sized sizeof params) : position ≤ fieldsEnd sizeof position params ∧
      fieldsEnd sizeof position params ≤ position + 15 * params.length := by
  induction params generalizing position with
  | nil => exact ⟨le_rfl, le_rfl⟩
  | cons vt rest ih =>
    obtain ⟨⟨pos, small⟩, others⟩ := forall_mem_cons.mp sized
    obtain ⟨lower, upper⟩ := @ih (alignUp (vt.size sizeof) position + vt.size sizeof) others
    have aligned := le_alignUp pos position
    have close := alignUp_lt pos position
    rw [fieldsEnd, length_cons]
    omega

theorem fieldsFrom_shape : (fieldsFrom sizeof position params).map (fun field => (field.1, field.2.length)) =
      params.map fun vt => (vt.name, vt.size sizeof) := by
  induction params generalizing position with
  | nil => rfl
  | cons vt rest ih =>
    rw [fieldsFrom, map_cons, ih]
    rfl

theorem fieldsFrom_names : (fieldsFrom sizeof position params).map (·.1) = params.map (·.name) := by
  simpa [Function.comp_def] using congrArg (List.map Prod.fst) (@fieldsFrom_shape sizeof params position)

theorem fieldsFrom_bounds (sized : Sized sizeof params) {field : String × Region}
    (mem : field ∈ fieldsFrom sizeof position params) :
    position ≤ field.2.start ∧ field.2.start + field.2.length ≤ fieldsEnd sizeof position params := by
  induction params generalizing position with
  | nil => cases mem
  | cons vt rest ih =>
    obtain ⟨⟨pos, small⟩, others⟩ := forall_mem_cons.mp sized
    have aligned := le_alignUp pos position
    have further := (@fieldsEnd_bound _ rest (alignUp (vt.size sizeof) position + vt.size sizeof) others).1
    rcases mem_cons.mp mem with rfl | later
    · exact ⟨aligned, further⟩
    · obtain ⟨lower, upper⟩ := ih others later
      exact ⟨by omega, upper⟩

theorem fieldsFrom_pairwise (sized : Sized sizeof params) :
    (fieldsFrom sizeof position params).Pairwise fun field other => field.2.start + field.2.length ≤ other.2.start := by
  induction params generalizing position with
  | nil => exact .nil
  | cons vt rest ih =>
    obtain ⟨-, others⟩ := forall_mem_cons.mp sized
    exact .cons (fun field later => (fieldsFrom_bounds others later).1) (ih others)

theorem lookup_of_mem {α : Type} {entries : List (String × α)} (unique : (entries.map (·.1)).Nodup)
    {entry : String × α} (mem : entry ∈ entries) : entries.lookup entry.1 = some entry.2 := by
  induction entries with
  | nil => cases mem
  | cons head rest ih =>
    obtain ⟨fresh, unique⟩ := nodup_cons.mp unique
    rcases mem_cons.mp mem with rfl | later
    · rw [lookup_cons, beq_self_eq_true]
    · have ne := beq_eq_false_iff_ne.mpr fun eq => fresh (List.mem_map.mpr ⟨entry, later, eq⟩)
      rw [lookup_cons, ne]
      exact ih unique later

variable {api : ApiEntry}

def ApiEntry.start (sizeof : String → Nat) (api : ApiEntry) (vt : VarType) : Nat :=
  ((api.field sizeof vt.name).getD ⟨0, 0⟩).start

theorem fieldsFrom_eq (names : (api.params.map (·.name)).Nodup) : fieldsFrom sizeof 0 api.params =
      api.params.map fun vt => (vt.name, ⟨api.start sizeof vt, vt.size sizeof⟩) := by
  have unique : ((fieldsFrom sizeof 0 api.params).map (·.1)).Nodup := fieldsFrom_names ▸ names
  have placed := congrArg (List.map fun named => (named.1, (⟨((api.field sizeof named.1).getD ⟨0, 0⟩).start, named.2⟩ : Region)))
    (@fieldsFrom_shape sizeof api.params 0)
  rw [List.map_map, List.map_map] at placed
  refine Eq.trans ?_ placed
  refine (List.map_id _).symm.trans (map_congr_left fun field mem => ?_)
  dsimp only [Function.comp_apply]
  rw [ApiEntry.field, lookup_of_mem unique mem]
  rfl

structure LaidOut (sizeof : String → Nat) (api : ApiEntry) : Prop where
  found : ∀ vt ∈ api.params, api.field sizeof vt.name = some ⟨api.start sizeof vt, vt.size sizeof⟩
  ordered : api.params.Pairwise fun vt other => api.start sizeof vt + vt.size sizeof ≤ api.start sizeof other
  inside : ∀ vt ∈ api.params, api.start sizeof vt + vt.size sizeof ≤ api.cmdSize sizeof
  small : api.cmdSize sizeof ≤ 248

theorem laidOut (sized : Sized sizeof api.params) (names : (api.params.map (·.name)).Nodup)
    (count : api.params.length ≤ 16) : LaidOut sizeof api := by
  have fields := @fieldsFrom_eq sizeof _ names
  have unique : ((fieldsFrom sizeof 0 api.params).map (·.1)).Nodup := fieldsFrom_names ▸ names
  have listed {vt : VarType} (mem : vt ∈ api.params) :
      (vt.name, (⟨api.start sizeof vt, vt.size sizeof⟩ : Region)) ∈ fieldsFrom sizeof 0 api.params := by
    rw [fields]
    exact List.mem_map_of_mem mem
  have most : ∀ {params : List VarType}, Sized sizeof params →
      0 < (params.map (VarType.size sizeof)).foldr max 1 ∧ (params.map (VarType.size sizeof)).foldr max 1 ≤ 8 := by
    intro params sized
    induction params with
    | nil => exact ⟨one_pos, Nat.le_of_ble_eq_true rfl⟩
    | cons vt rest ih =>
      obtain ⟨⟨_, small⟩, others⟩ := forall_mem_cons.mp sized
      obtain ⟨lower, upper⟩ := ih others
      exact ⟨lower.trans_le (le_max_right _ _), max_le small upper⟩
  obtain ⟨pos, aligned⟩ := most sized
  have rounded := le_alignUp pos (fieldsEnd sizeof 0 api.params)
  have close := alignUp_lt pos (fieldsEnd sizeof 0 api.params)
  have ends := (@fieldsEnd_bound sizeof _ 0 sized).2
  constructor
  case found => exact fun vt mem => lookup_of_mem unique (listed mem)
  case ordered =>
    have pairwise := @fieldsFrom_pairwise sizeof _ 0 sized
    rw [fields, pairwise_map] at pairwise
    exact pairwise
  case inside =>
    intro vt mem
    exact ((fieldsFrom_bounds sized (listed mem)).2.trans rounded).trans (le_max_right _ _)
  case small =>
    rw [ApiEntry.cmdSize]
    omega

end

/-!
## Sending
-/

section

variable {sizeof : String → Nat} {api : ApiEntry} {client : Client} {params : List VarType}

def Client.length (client : Client) (vt : VarType) : Nat := client.arg (vt.name ++ "_length")

/-- What `dataSize` and `totalSize` count. -/
def Client.dataSize (client : Client) (params : List VarType) : Nat :=
  ((params.filter fun vt => vt.ptrLevel != 0).map client.length).sum

def Client.bytes (client : Client) (vt : VarType) : List UInt8 :=
  read client.memory ⟨client.arg vt.name, client.length vt⟩

def Client.advance (client : Client) (copies : Bool) (vt : VarType) : Nat :=
  if copies && vt.ptrLevel != 0 then client.length vt else 0

def argWrite (sizeof : String → Nat) (api : ApiEntry) (client : Client) (copies : Bool) (offset : Nat)
    (vt : VarType) : List Write :=
  if copies && vt.ptrLevel != 0 then
    [(headerSize + api.cmdSize sizeof + offset, client.bytes vt),
      (headerSize + api.start sizeof vt, encode (vt.size sizeof) offset)]
  else [(headerSize + api.start sizeof vt, encode (vt.size sizeof) (client.arg vt.name))]

def argWrites (sizeof : String → Nat) (api : ApiEntry) (client : Client) (copies : Bool) :
    List VarType → Nat → List Write
  | [], _ => []
  | vt :: rest, offset =>
    argWrite sizeof api client copies offset vt ++
      argWrites sizeof api client copies rest (offset + client.advance copies vt)

theorem length_bytes (vt : VarType) : (client.bytes vt).length = client.length vt := length_read _ _

theorem dataSize_cons (vt : VarType) (rest : List VarType) : client.dataSize (vt :: rest) =
      (if vt.ptrLevel != 0 then client.length vt else 0) + client.dataSize rest := by
  rw [Client.dataSize, filter_cons]
  split
  · rfl
  · exact (zero_add _).symm

theorem put_eq {start : Nat} {bytes : List UInt8} (fits : start + bytes.length ≤ bufferSize) :
    s.put start bytes = some { s with mSendBuffer := put s.mSendBuffer start bytes } :=
  if_pos fits

variable (layout : LaidOut sizeof api)

include layout

theorem storeField_eq (mem : vt ∈ api.params) (s : Sending) (value : Nat) :
    s.storeField sizeof api vt.name value = some { s with
        mSendBuffer := put s.mSendBuffer (headerSize + api.start sizeof vt) (encode (vt.size sizeof) value) } := by
  have fits : headerSize + api.start sizeof vt + (encode (vt.size sizeof) value).length ≤ bufferSize := by
    have inside := layout.inside vt mem
    have small := layout.small
    rw [length_encode, headerSize, bufferSize]
    omega
  rw [Sending.storeField, layout.found vt mem]
  exact put_eq fits

/-- Whether a sender copies with this `dataSize`. -/
def Sending.copies (inlined : Bool) (s : Sending) : Bool := inlined && decide (s.dataSize < mMaxInlineSize)

theorem exec_argument (inlined : Bool) {vt : VarType} (mem : vt ∈ api.params) {s : Sending}
    {offset : Nat} (behind : s.copies inlined → s.payload = headerSize + api.cmdSize sizeof + offset)
    (fits : s.copies inlined → offset + client.advance true vt < mMaxInlineSize) :
    (printArgument inlined vt).exec sizeof api client s = some { s with
        mSendBuffer := putAll s.mSendBuffer (argWrite sizeof api client (s.copies inlined) offset vt)
        payload := s.payload + client.advance (s.copies inlined) vt } := by
  have small := layout.small
  cases pointer : vt.ptrLevel != 0 with
  | false =>
    simp only [printArgument, argWrite, Client.advance, pointer, Bool.and_false, Bool.false_and,
      Bool.false_eq_true, if_false, SendStmt.exec, add_zero]
    exact storeField_eq layout mem s _
  | true =>
    cases inlined with
    | false =>
      simp only [printArgument, argWrite, Client.advance, pointer, Bool.and_false, Bool.false_and,
        Bool.false_eq_true, if_false, SendStmt.exec, add_zero, Sending.copies]
      exact storeField_eq layout mem s _
    | true =>
      by_cases inline : s.dataSize < mMaxInlineSize
      · have copies : s.copies true = true := by rw [Sending.copies, decide_eq_true inline]; rfl
        have room := fits copies
        simp only [Client.advance, pointer, Bool.and_self, if_true] at room
        simp only [printArgument, argWrite, Client.advance, pointer, copies, Bool.and_self, if_true, SendStmt.exec, inline]
        have whole : s.payload + (client.bytes vt).length ≤ bufferSize := by
          rw [behind copies, length_bytes, headerSize, bufferSize]
          rw [mMaxInlineSize] at room
          omega
        have here : s.payload - (headerSize + api.cmdSize sizeof) = offset := by
          simp [behind copies]
        rw [show s.put s.payload (read client.memory ⟨client.arg vt.name, client.arg (vt.name ++ "_length")⟩) =
          some { s with mSendBuffer := put s.mSendBuffer s.payload (client.bytes vt) } from put_eq whole,
          bind_eq_bind, bind_some, storeField_eq layout mem, here]
        rw [← behind copies]
        rfl
      · have kept : s.copies true = false := by rw [Sending.copies, decide_eq_false inline]; rfl
        simp only [printArgument, argWrite, Client.advance, pointer, kept, Bool.false_and, Bool.and_self,
          Bool.false_eq_true, if_false, if_true, SendStmt.exec, inline, add_zero]
        exact storeField_eq layout mem s _

omit layout in
theorem advance_le (copies : Bool) (vt : VarType) : client.advance copies vt ≤ client.advance true vt := by
  cases copies with
  | false => exact Nat.zero_le _
  | true => exact le_rfl

theorem exec_arguments (inlined : Bool) (mem : ∀ vt ∈ params, vt ∈ api.params) {s : Sending}
    {offset : Nat} (behind : s.copies inlined → s.payload = headerSize + api.cmdSize sizeof + offset)
    (fits : s.copies inlined → offset + client.dataSize params < mMaxInlineSize) :
    ∃ payload, (params.map (printArgument inlined)).foldlM (SendStmt.exec sizeof api client) s = some { s with
        mSendBuffer := putAll s.mSendBuffer (argWrites sizeof api client (s.copies inlined) params offset)
        payload := payload } := by
  induction params generalizing s offset with
  | nil => exact ⟨s.payload, rfl⟩
  | cons vt rest ih =>
    obtain ⟨first, others⟩ := forall_mem_cons.mp mem
    have room (copies : s.copies inlined) : offset + client.advance true vt + client.dataSize rest < mMaxInlineSize := by
      have whole := fits copies
      rwa [dataSize_cons, ← add_assoc] at whole
    have step := exec_argument layout inlined first behind fun copies => (Nat.le_add_right _ _).trans_lt (room copies)
    obtain ⟨payload, run⟩ := @ih others
      { s with
        mSendBuffer := putAll s.mSendBuffer (argWrite sizeof api client (s.copies inlined) offset vt)
        payload := s.payload + client.advance (s.copies inlined) vt }
      (offset + client.advance (s.copies inlined) vt)
      (fun copies => by
        rw [behind copies, add_assoc])
      (fun copies => by
        have : s.copies inlined = true := copies
        rw [this]
        exact room copies)
    refine ⟨payload, ?_⟩
    rw [map_cons, foldlM_cons, step, bind_eq_bind, bind_some, run, argWrites, putAll, putAll, putAll, foldl_append]
    rfl

omit layout in
theorem coreHeader_eq (s : Sending) (id : Nat) {dataLen : Nat} (fits : dataLen + headerSize < 2 ^ 64) :
    s.coreHeader id dataLen = some { s with
        mSendBuffer := putAll s.mSendBuffer [(4, encode 4 dataLen), (0, encode 4 id)]
        mSendLen := dataLen + headerSize } := by
  have first : 4 + (encode 4 dataLen).length ≤ bufferSize := by rw [length_encode, bufferSize]; decide
  have second : 0 + (encode 4 id).length ≤ bufferSize := by rw [length_encode, bufferSize]; decide
  rw [Sending.coreHeader, put_eq first, bind_eq_bind, bind_some, put_eq second, Nat.mod_eq_of_lt fits]
  rfl

omit layout in
theorem exec_dataSize {s : Sending} (fits : s.dataSize + (params.map client.length).sum < 2 ^ 64) :
    (params.map fun vt => SendStmt.dataSizeAdd (vt.name ++ "_length")).foldlM (SendStmt.exec sizeof api client) s =
      some { s with dataSize := s.dataSize + (params.map client.length).sum } := by
  induction params generalizing s with
  | nil => rfl
  | cons vt rest ih =>
    rw [map_cons, sum_cons, ← add_assoc] at fits
    have wrap : (s.dataSize + client.arg (vt.name ++ "_length")) % 2 ^ 64 = s.dataSize + client.length vt :=
      Nat.mod_eq_of_lt ((Nat.le_add_right _ _).trans_lt fits)
    have step := @ih { s with dataSize := s.dataSize + client.length vt } fits
    rw [map_cons, foldlM_cons, SendStmt.exec, bind_eq_bind, bind_some, wrap, step, map_cons, sum_cons, add_assoc]

omit layout in
theorem isConst_of_inlined {ret : Bool} (inlined : inlineDataPointers params ret = true)
    (mem : vt ∈ params) (pointer : (vt.ptrLevel != 0) = true) : vt.isConst = true := by
  induction params generalizing ret with
  | nil => cases mem
  | cons head rest ih =>
    rw [inlineDataPointers] at inlined
    split at inlined
    case isTrue => cases inlined
    case isFalse writable =>
      split at inlined
      case isTrue => cases inlined
      case isFalse =>
        rcases mem_cons.mp mem with rfl | later
        · cases constant : vt.isConst with
          | true => rfl
          | false => exact absurd (by rw [constant, pointer]; rfl) writable
        · exact ih inlined later

omit layout in
theorem filter_of_inlined (inlined : hasInlineDataPointers api = true) :
    (api.params.filter fun vt => vt.isConst && vt.ptrLevel != 0) = api.params.filter fun vt => vt.ptrLevel != 0 := by
  rw [hasInlineDataPointers] at inlined
  split at inlined
  case isTrue => cases inlined
  case isFalse =>
    apply filter_congr
    intro vt mem
    cases pointer : vt.ptrLevel != 0 with
    | false => simp
    | true => simp [isConst_of_inlined inlined mem pointer]

def Client.copies (client : Client) (api : ApiEntry) : Bool :=
  hasInlineDataPointers api && decide (client.dataSize api.params < mMaxInlineSize)

def messageSize (sizeof : String → Nat) (api : ApiEntry) (client : Client) : Nat :=
  (if client.copies api then client.dataSize api.params else 0) + api.cmdSize sizeof

def messageWrites (sizeof : String → Nat) (id : Nat) (api : ApiEntry) (client : Client) : List Write :=
  [(4, encode 4 (messageSize sizeof api client)), (0, encode 4 id)] ++
    argWrites sizeof api client (client.copies api) api.params 0

def returnSizes (sizeof : String → Nat) (api : ApiEntry) (client : Client) : List Nat :=
  if hasInlineDataPointers api then
    if client.dataSize api.params ≥ mMaxInlineSize then [4] else []
  else if api.ret.hasTypeName then [api.ret.size sizeof]
  else if needFlush api ≠ 0 then [4]
  else []

theorem messageSize_le : messageSize sizeof api client ≤ 1272 := by
  have small := layout.small
  rw [messageSize]
  split
  case isTrue copies =>
    rw [Client.copies, Bool.and_eq_true, decide_eq_true_eq, mMaxInlineSize] at copies
    omega
  case isFalse => omega

theorem messageSize_fits : messageSize sizeof api client + headerSize < 2 ^ 64 := by
  have small := @messageSize_le _ api client layout
  rw [headerSize]
  omega

theorem exec_coreHeaderInline (inlined : hasInlineDataPointers api = true) (id : Nat) {s : Sending}
    (counted : s.dataSize = client.dataSize api.params) :
    (SendStmt.coreHeaderInline id).exec sizeof api client s = some { s with
        mSendBuffer := putAll s.mSendBuffer [(4, encode 4 (messageSize sizeof api client)), (0, encode 4 id)]
        mSendLen := messageSize sizeof api client + headerSize
        payload := headerSize + api.cmdSize sizeof } := by
  have whole := @messageSize_fits _ api client layout
  rw [SendStmt.exec]
  by_cases inline : s.dataSize < mMaxInlineSize
  · have size : messageSize sizeof api client = s.dataSize + api.cmdSize sizeof := by
      rw [messageSize, Client.copies, inlined, ← counted, decide_eq_true inline]
      rfl
    rw [if_pos inline, ← size, coreHeader_eq s id whole]
    rfl
  · have size : messageSize sizeof api client = api.cmdSize sizeof := by
      rw [messageSize, Client.copies, inlined, ← counted, decide_eq_false inline]
      exact zero_add _
    rw [size] at whole
    rw [if_neg inline, coreHeader_eq s id whole, size]
    rfl

theorem exec_coreHeader (inlined : hasInlineDataPointers api = false) (id : Nat) (s : Sending) :
    (SendStmt.coreHeader id).exec sizeof api client s = some { s with
        mSendBuffer := putAll s.mSendBuffer [(4, encode 4 (messageSize sizeof api client)), (0, encode 4 id)]
        mSendLen := messageSize sizeof api client + headerSize } := by
  have whole := @messageSize_fits _ api client layout
  have size : messageSize sizeof api client = api.cmdSize sizeof := by
    rw [messageSize, Client.copies, inlined]
    exact zero_add _
  rw [SendStmt.exec, ← size]
  exact coreHeader_eq s id whole

theorem exec_coreCommit (length : s.mSendLen = messageSize sizeof api client + headerSize) :
    SendStmt.coreCommit.exec sizeof api client s = some { s with
        sent := s.sent ++ read s.mSendBuffer ⟨0, messageSize sizeof api client + headerSize⟩ } := by
  have small := @messageSize_le _ api client layout
  have room : s.mSendLen ≤ bufferSize := by
    rw [length, headerSize, bufferSize]
    omega
  rw [SendStmt.exec, Sending.coreCommit, if_pos room, length]

theorem exec_behind_header {inlined : Bool} {s : Sending}
    (copies : s.copies inlined = client.copies api) (behind : client.copies api → s.payload = headerSize + api.cmdSize sizeof)
    (length : s.mSendLen = messageSize sizeof api client + headerSize) (rest : List SendStmt) :
    ∃ payload, (api.params.map (printArgument inlined) ++ .coreCommit :: rest).foldlM (SendStmt.exec sizeof api client) s =
      rest.foldlM (SendStmt.exec sizeof api client) { s with
          mSendBuffer := putAll s.mSendBuffer (argWrites sizeof api client (client.copies api) api.params 0)
          payload := payload
          sent := s.sent ++ read (putAll s.mSendBuffer (argWrites sizeof api client (client.copies api) api.params 0))
              ⟨0, messageSize sizeof api client + headerSize⟩ } := by
  have fits (copied : s.copies inlined) : 0 + client.dataSize api.params < mMaxInlineSize := by
    rw [copies, Client.copies, Bool.and_eq_true, decide_eq_true_eq] at copied
    rw [zero_add]
    exact copied.2
  obtain ⟨payload, run⟩ := exec_arguments layout inlined (fun _ => id) (fun copied => behind (copies ▸ copied)) fits
  refine ⟨payload, ?_⟩
  rw [copies] at run
  rw [foldlM_append, run, bind_eq_bind, bind_some, foldlM_cons,
    exec_coreCommit layout (by exact length), bind_eq_bind, bind_some]

/-- A sender behind `coreCommit`. -/
def committed (sizeof : String → Nat) (id : Nat) (api : ApiEntry) (client : Client) (mSendBuffer : Memory)
    (dataSize payload : Nat) : Sending :=
  { mSendBuffer := putAll mSendBuffer (messageWrites sizeof id api client), mSendLen := messageSize sizeof api client + headerSize
    dataSize := dataSize
    payload := payload
    sent := read (putAll mSendBuffer (messageWrites sizeof id api client))
      ⟨0, messageSize sizeof api client + headerSize⟩ }

omit layout in
theorem putAll_messageWrites (id : Nat) (mSendBuffer : Memory) : putAll mSendBuffer (messageWrites sizeof id api client) =
      putAll (putAll mSendBuffer [(4, encode 4 (messageSize sizeof api client)), (0, encode 4 id)])
        (argWrites sizeof api client (client.copies api) api.params 0) :=
  foldl_append

theorem send_inlined (fits : client.dataSize api.params < 2 ^ 64)
    (inlined : hasInlineDataPointers api = true) (index : Nat) (mSendBuffer : Memory) :
    ∃ payload, send sizeof index api client mSendBuffer = SendStmt.getReturnIfLarge.exec sizeof api client
        (committed sizeof (cmdID index) api client mSendBuffer (client.dataSize api.params) payload) := by
  have counted := @exec_dataSize sizeof api client _
    { mSendBuffer := mSendBuffer } (by rwa [zero_add])
  have header := @exec_coreHeaderInline _ api client layout inlined (cmdID index)
    { mSendBuffer := mSendBuffer, dataSize := client.dataSize api.params } rfl
  obtain ⟨payload, run⟩ := @exec_behind_header _ api client layout true
    { mSendBuffer := putAll mSendBuffer [(4, encode 4 (messageSize sizeof api client)), (0, encode 4 (cmdID index))]
      mSendLen := messageSize sizeof api client + headerSize
      payload := headerSize + api.cmdSize sizeof
      dataSize := client.dataSize api.params }
    (by rw [Client.copies, inlined]; rfl) (fun _ => rfl) rfl [.getReturnIfLarge]
  rw [zero_add] at counted
  refine ⟨payload, ?_⟩
  rw [send, printApiCpp]
  simp only [inlined, if_true, filter_of_inlined inlined]
  rw [append_assoc, cons_append, foldlM_cons, SendStmt.exec, bind_eq_bind, bind_some,
    foldlM_append, counted, bind_eq_bind, bind_some, cons_append, foldlM_cons]
  refine (congrArg (· >>= _) header).trans ?_
  rw [bind_eq_bind, bind_some, run, committed, putAll_messageWrites, foldlM_cons]
  exact bind_pure _

theorem send_addressed (inlined : hasInlineDataPointers api = false) (index : Nat) (mSendBuffer : Memory) :
    ∃ payload, send sizeof index api client mSendBuffer = (if api.ret.hasTypeName then [.getReturn api.ret]
        else if needFlush api != 0 then [.getReturnNull]
        else []).foldlM (SendStmt.exec sizeof api client) (committed sizeof (cmdID index) api client mSendBuffer 0 payload) := by
  have header := @exec_coreHeader _ api client layout inlined (cmdID index) { mSendBuffer := mSendBuffer }
  have stored : client.copies api = false := by rw [Client.copies, inlined]; rfl
  obtain ⟨payload, run⟩ := @exec_behind_header _ api client layout false
    { mSendBuffer := putAll mSendBuffer [(4, encode 4 (messageSize sizeof api client)), (0, encode 4 (cmdID index))]
      mSendLen := messageSize sizeof api client + headerSize }
    stored.symm (fun copied => absurd copied (by rw [stored]; exact Bool.false_ne_true)) rfl
    (if api.ret.hasTypeName then [.getReturn api.ret]
        else if needFlush api != 0 then [.getReturnNull]
        else [])
  refine ⟨payload, ?_⟩
  rw [send, printApiCpp]
  simp only [inlined, Bool.false_eq_true, if_false, nil_append]
  rw [cons_append, foldlM_cons]
  refine (congrArg (· >>= _) header).trans ?_
  rw [bind_eq_bind, bind_some, run, committed, putAll_messageWrites]
  rfl

theorem send_eq (fits : client.dataSize api.params < 2 ^ 64) (index : Nat) (mSendBuffer : Memory) :
    ∃ sending, send sizeof index api client mSendBuffer = some sending ∧
      sending.sent = read (putAll mSendBuffer (messageWrites sizeof (cmdID index) api client))
        ⟨0, messageSize sizeof api client + headerSize⟩ ∧
      sending.waits = returnSizes sizeof api client := by
  cases inlined : hasInlineDataPointers api with
  | true =>
    obtain ⟨payload, run⟩ := send_inlined layout fits inlined index mSendBuffer
    rw [run, SendStmt.exec, returnSizes, inlined, if_pos rfl]
    by_cases large : client.dataSize api.params ≥ mMaxInlineSize
    · rw [if_pos large, if_pos (by exact large)]
      exact ⟨_, rfl, rfl, rfl⟩
    · rw [if_neg large, if_neg (by exact large)]
      exact ⟨_, rfl, rfl, rfl⟩
  | false =>
    obtain ⟨payload, run⟩ := send_addressed layout inlined index mSendBuffer
    rw [run, returnSizes, inlined, if_neg Bool.false_ne_true]
    cases named : api.ret.hasTypeName with
    | true => exact ⟨_, rfl, rfl, rfl⟩
    | false =>
      by_cases flush : needFlush api = 0
      · rw [flush]
        exact ⟨_, rfl, rfl, rfl⟩
      · rw [if_neg Bool.false_ne_true, if_neg Bool.false_ne_true, if_pos (bne_iff_ne.mpr flush), if_pos flush]
        exact ⟨_, rfl, rfl, rfl⟩

/-!
## The message
-/

omit layout in
theorem field_mem_argWrite (copies : Bool) (offset : Nat) (mem : w ∈ argWrite sizeof api client copies offset vt) :
    w.region = ⟨headerSize + api.start sizeof vt, vt.size sizeof⟩ ∨
      w.region = ⟨headerSize + api.cmdSize sizeof + offset, client.advance copies vt⟩ := by
  rw [argWrite] at mem
  rw [Client.advance]
  split at mem
  case isTrue copied =>
    rw [if_pos copied]
    rcases mem_cons.mp mem with rfl | other
    · exact .inr (by rw [Write.region, length_bytes])
    · cases mem_singleton.mp other
      exact .inl (by rw [Write.region, length_encode])
  case isFalse =>
    cases mem_singleton.mp mem
    exact .inl (by rw [Write.region, length_encode])

omit layout in
theorem mem_argWrites {copies : Bool} (listed : w ∈ argWrites sizeof api client copies params offset) :
    (∃ vt ∈ params, w.region = ⟨headerSize + api.start sizeof vt, vt.size sizeof⟩) ∨
      headerSize + api.cmdSize sizeof + offset ≤ w.region.start := by
  induction params generalizing offset with
  | nil => cases listed
  | cons vt rest ih =>
    rcases mem_append.mp listed with first | later
    · rcases field_mem_argWrite copies offset first with field | payload
      · exact .inl ⟨vt, mem_cons_self, field⟩
      · exact .inr (payload ▸ le_rfl)
    · rcases ih later with ⟨other, mem, field⟩ | behind
      · exact .inl ⟨other, mem_cons_of_mem vt mem, field⟩
      · exact .inr ((Nat.add_le_add_left (Nat.le_add_right _ _) _).trans behind)

theorem argWrite_apart (copies : Bool) (offset : Nat) (mem : vt ∈ api.params) :
    (argWrite sizeof api client copies offset vt).Pairwise fun w other => w.region.Apart other.region := by
  rw [argWrite]
  split
  case isTrue =>
    refine pairwise_pair.mpr ((apart_of_le ?_).symm)
    have inside := layout.inside vt mem
    simp only [Write.region, length_encode]
    omega
  case isFalse => exact pairwise_singleton _ _

theorem argWrites_apart (copies : Bool) (offset : Nat) (listed : ∀ vt ∈ params, vt ∈ api.params)
    (ordered : params.Pairwise fun vt other => api.start sizeof vt + vt.size sizeof ≤ api.start sizeof other) :
    (argWrites sizeof api client copies params offset).Pairwise fun w other => w.region.Apart other.region := by
  induction ordered generalizing offset with
  | nil => exact .nil
  | @cons vt rest before _ ih =>
    obtain ⟨first, others⟩ := forall_mem_cons.mp listed
    have inside := layout.inside vt first
    refine pairwise_append.mpr ⟨argWrite_apart layout copies offset first, ih _ others, ?_⟩
    intro w here other later
    rcases field_mem_argWrite copies offset here with field | payload
    · rw [field]
      rcases mem_argWrites later with ⟨next, mem, nextField⟩ | behind
      · have order := before next mem
        rw [nextField]
        exact apart_of_le (by rw [add_assoc]; exact Nat.add_le_add_left order _)
      · exact apart_of_le (by simp only; omega)
    · rw [payload]
      rcases mem_argWrites later with ⟨next, mem, nextField⟩ | behind
      · have nextInside := layout.inside next (others next mem)
        rw [nextField]
        exact (apart_of_le (by simp only; omega)).symm
      · exact apart_of_le (by simp only; omega)

theorem messageWrites_apart (id : Nat) :
    (messageWrites sizeof id api client).Pairwise fun w other => w.region.Apart other.region := by
  have behind {w : Write} (later : w ∈ argWrites sizeof api client (client.copies api) api.params 0) :
      headerSize ≤ w.region.start := by
    rcases mem_argWrites later with ⟨vt, _, field⟩ | behind
    · exact field ▸ Nat.le_add_right _ _
    · exact (by omega : headerSize ≤ headerSize + api.cmdSize sizeof + 0).trans behind
  refine pairwise_append.mpr ⟨?_, argWrites_apart layout _ 0 (fun _ mem => mem) layout.ordered, ?_⟩
  · refine pairwise_pair.mpr ((apart_of_le ?_).symm)
    exact le_rfl
  · intro w header other later
    have start := behind later
    rcases mem_cons.mp header with rfl | second
    · exact apart_of_le (start.trans' (by rw [Write.region, length_encode]; exact le_refl 8))
    · cases mem_singleton.mp second
      exact apart_of_le (start.trans' (by rw [Write.region, length_encode]; exact Nat.le_add_right 4 4))

omit layout

theorem argWrites_found (copies : Bool) (offset : Nat) {vt : VarType} (mem : vt ∈ params) :
    ∃ value, (headerSize + api.start sizeof vt, encode (vt.size sizeof) value) ∈
        argWrites sizeof api client copies params offset ∧
      if copies && vt.ptrLevel != 0 then (headerSize + api.cmdSize sizeof + value, client.bytes vt) ∈
            argWrites sizeof api client copies params offset ∧
          value + client.length vt ≤ offset + client.dataSize params
      else value = client.arg vt.name := by
  induction params generalizing offset with
  | nil => cases mem
  | cons head rest ih =>
    rw [argWrites, dataSize_cons]
    rcases mem_cons.mp mem with rfl | later
    · rw [argWrite]
      split
      case isTrue copied =>
        have ptr := (Bool.and_eq_true _ _ ▸ copied).2
        refine ⟨offset, mem_cons_of_mem _ mem_cons_self, mem_cons_self, ?_⟩
        rw [if_pos ptr]
        omega
      case isFalse => exact ⟨_, mem_cons_self, rfl⟩
    · obtain ⟨value, field, rest⟩ := ih (offset + client.advance copies head) later
      refine ⟨value, mem_append_right _ field, ?_⟩
      split
      case isTrue copied =>
        rw [if_pos copied] at rest
        have step := @advance_le client copies head
        simp only [Client.advance, Bool.true_and] at step
        refine ⟨mem_append_right _ rest.1, rest.2.trans ?_⟩
        rw [Client.advance]
        omega
      case isFalse kept => exact (if_neg kept ▸ rest :)

theorem take_drop_read (memory : Memory) {start count : Nat} (inside : start + count ≤ size) :
    ((read memory ⟨0, size⟩).drop start).take count = read memory ⟨start, count⟩ := by
  apply ext_getElem
  · rw [length_take, length_drop, length_read, length_read]
    exact min_eq_left (Nat.le_sub_of_add_le' inside)
  · intro i _ _
    simp only [ByteMemory.read, getElem_take, getElem_drop, getElem_map, getElem_range, zero_add]

variable {garbage mSendBuffer : Memory} {id index : Nat}

@[irreducible] def delivered (sizeof : String → Nat) (id : Nat) (api : ApiEntry) (client : Client) (garbage mSendBuffer : Memory) :
    Memory :=
  put garbage 0 (read (putAll mSendBuffer (messageWrites sizeof id api client)) ⟨0, messageSize sizeof api client + headerSize⟩)

theorem read_delivered (layout : LaidOut sizeof api) {w : Write} (mem : w ∈ messageWrites sizeof id api client)
    (inside : w.region.start + w.region.length ≤ messageSize sizeof api client + headerSize) :
    read (delivered sizeof id api client garbage mSendBuffer) w.region = w.2 := by
  rw [delivered, read_put_read _ _ inside]
  exact read_putAll (messageWrites_apart layout id) _ mem

theorem field_delivered (layout : LaidOut sizeof api)
    (values : ∀ vt ∈ api.params, client.arg vt.name < 256 ^ vt.size sizeof) {s : Playing}
    (buf : s.buf = delivered sizeof id api client garbage mSendBuffer) (mem : vt ∈ api.params) :
    ∃ value, s.field sizeof api vt.name = some value ∧ if client.copies api && vt.ptrLevel != 0 then
        read s.buf ⟨headerSize + api.cmdSize sizeof + value, client.length vt⟩ = client.bytes vt ∧
          value + client.length vt ≤ client.dataSize api.params
      else value = client.arg vt.name := by
  obtain ⟨value, field, what⟩ := @argWrites_found sizeof api client _ (client.copies api) 0 vt mem
  have inside := layout.inside vt mem
  have small : value < 256 ^ vt.size sizeof := by
    split at what
    case isTrue copied =>
      rw [Bool.and_eq_true] at copied
      have size : vt.size sizeof = 8 := if_pos copied.2
      have few := copied.1
      rw [Client.copies, Bool.and_eq_true, decide_eq_true_eq, mMaxInlineSize] at few
      rw [size]
      omega
    case isFalse => exact what ▸ values vt mem
  have stored := @read_delivered _ api client garbage mSendBuffer id layout _ (mem_append_right _ field) (by
      rw [Write.region, length_encode, messageSize]
      simp only
      omega)
  rw [Write.region, length_encode] at stored
  refine ⟨value, ?_, ?_⟩
  · rw [Playing.field, layout.found vt mem, bind_eq_bind, bind_some, buf, stored, decode_encode small]
    rfl
  · split
    case isTrue copied =>
      rw [if_pos copied, zero_add] at what
      have copies := (Bool.and_eq_true _ _ ▸ copied).1
      have payload := @read_delivered _ api client garbage mSendBuffer id layout _ (mem_append_right _ what.1) (by
          rw [Write.region, length_bytes, messageSize, copies]
          simp only [if_true]
          omega)
      rw [Write.region, length_bytes] at payload
      exact ⟨buf ▸ payload, what.2⟩
    case isFalse kept => exact (if_neg kept ▸ what :)

/-!
## Playing
-/

/-- What `rsi_` receives for an argument. A pointer to bytes of the client is of use as long as
the client waits. -/
def Agrees (client : Client) (buf : Memory) (waits : Prop) (vt : VarType) : Received → Prop
  | .word value =>
    if vt.ptrLevel = 0 then value = client.arg vt.name
    else client.length vt = 0 ∨ value = client.arg vt.name ∧ waits
  | .inBuffer position =>
    vt.ptrLevel ≠ 0 ∧ position + client.length vt ≤ bufferSize ∧
      read buf ⟨position, client.length vt⟩ = client.bytes vt

theorem mapM_forall₂ {α β γ : Type} {items : List α} {print : α → β} {eval : β → Option γ} {holds : α → γ → Prop}
    (each : ∀ item ∈ items, ∃ result, eval (print item) = some result ∧ holds item result) :
    ∃ results, (items.map print).mapM eval = some results ∧ List.Forall₂ holds items results := by
  induction items with
  | nil => exact ⟨[], rfl, .nil⟩
  | cons item rest ih =>
    obtain ⟨⟨result, first, here⟩, others⟩ := forall_mem_cons.mp each
    obtain ⟨results, evaluated, there⟩ := ih others
    refine ⟨result :: results, ?_, .cons here there⟩
    rw [map_cons, mapM_cons, first, bind_eq_bind, bind_some, evaluated]
    rfl

theorem returnSizes_ne_nil (inlined : hasInlineDataPointers api = false) (mem : vt ∈ api.params)
    (pointer : (vt.ptrLevel != 0) = true) : returnSizes sizeof api client ≠ [] := by
  rw [returnSizes, inlined, if_neg Bool.false_ne_true]
  split
  case isTrue => exact cons_ne_nil _ _
  case isFalse unnamed =>
    have flush : needFlush api ≠ 0 := by
      rw [needFlush]
      split
      case isTrue => exact one_ne_zero
      case isFalse =>
        intro none
        have zero := sum_eq_zero_iff.mp none vt.ptrLevel (List.mem_map_of_mem mem)
        exact bne_iff_ne.mp pointer zero
    rw [if_pos flush]
    exact cons_ne_nil _ _

/-- `baseData` of a playback function behind its first statement. -/
def baseOf (sizeof : String → Nat) (api : ApiEntry) (client : Client) : Option Nat :=
  if hasInlineDataPointers api then
    if messageSize sizeof api client ≠ api.cmdSize sizeof then some (headerSize + api.cmdSize sizeof) else none
  else none

theorem eval_argument (layout : LaidOut sizeof api) (values : ∀ vt ∈ api.params, client.arg vt.name < 256 ^ vt.size sizeof)
    {s : Playing} (buf : s.buf = delivered sizeof id api client garbage mSendBuffer)
    (base : s.baseData = baseOf sizeof api client) {vt : VarType} (mem : vt ∈ api.params) :
    ∃ received, (printPlayArg (hasInlineDataPointers api) vt).eval sizeof api s = some received ∧
      Agrees client s.buf (returnSizes sizeof api client ≠ []) vt received := by
  obtain ⟨value, field, what⟩ := field_delivered layout values buf mem
  cases pointer : vt.ptrLevel != 0 with
  | false =>
    rw [pointer, Bool.and_false, if_neg Bool.false_ne_true] at what
    rw [printPlayArg, pointer, Bool.and_false, if_neg Bool.false_ne_true]
    refine ⟨.word value, ?_, ?_⟩
    · rw [PlayArg.eval, field]
      rfl
    · have scalar : vt.ptrLevel = 0 := by simpa using pointer
      rw [Agrees, if_pos scalar]
      exact what
  | true =>
    have addr : vt.ptrLevel ≠ 0 := bne_iff_ne.mp pointer
    cases inlined : hasInlineDataPointers api with
    | false =>
      rw [Client.copies, inlined, Bool.false_and, Bool.false_and, if_neg Bool.false_ne_true] at what
      rw [printPlayArg, Bool.false_and, if_neg Bool.false_ne_true]
      refine ⟨.word value, ?_, ?_⟩
      · rw [PlayArg.eval, field]
        rfl
      · rw [Agrees, if_neg addr]
        exact .inr ⟨what, returnSizes_ne_nil inlined mem pointer⟩
    | true =>
      rw [printPlayArg, pointer, Bool.and_self, if_pos rfl, PlayArg.eval, field, base, baseOf, inlined, if_pos rfl, messageSize]
      by_cases inline : client.dataSize api.params < mMaxInlineSize
      · have copies : client.copies api = true := by
          rw [Client.copies, inlined, decide_eq_true inline]
          rfl
        rw [copies, pointer, Bool.and_self, if_pos rfl] at what
        rw [copies, if_pos rfl]
        by_cases empty : client.dataSize api.params = 0
        · rw [if_neg (not_not_intro (by rw [empty, zero_add]))]
          refine ⟨.word value, rfl, ?_⟩
          rw [Agrees, if_neg addr]
          exact .inl (by have := what.2; omega)
        · rw [if_pos (by omega)]
          refine ⟨.inBuffer (headerSize + api.cmdSize sizeof + value), rfl, addr, ?_, what.1⟩
          have small := layout.small
          rw [mMaxInlineSize] at inline
          rw [headerSize, bufferSize]
          omega
      · have kept : client.copies api = false := by
          rw [Client.copies, inlined, decide_eq_false inline]
          rfl
        rw [kept, Bool.false_and, if_neg Bool.false_ne_true] at what
        rw [kept, if_neg Bool.false_ne_true, zero_add, if_neg (not_not_intro rfl)]
        refine ⟨.word value, rfl, ?_⟩
        rw [Agrees, if_neg addr, returnSizes, inlined, if_pos rfl, if_pos (Nat.le_of_not_lt inline)]
        exact .inr ⟨what, cons_ne_nil _ _⟩

def HasLengths (params : List VarType) : Prop :=
  ∀ vt ∈ params, (vt.ptrLevel != 0) = true →
    ∃ length ∈ params, length.name = vt.name ++ "_length" ∧ length.ptrLevel = 0

theorem exec_totalSize (layout : LaidOut sizeof api)
    (values : ∀ vt ∈ api.params, client.arg vt.name < 256 ^ vt.size sizeof) (lengths : HasLengths api.params)
    (listed : ∀ vt ∈ params, vt ∈ api.params ∧ (vt.ptrLevel != 0) = true) {s : Playing}
    (buf : s.buf = delivered sizeof id api client garbage mSendBuffer)
    (fits : s.totalSize + (params.map client.length).sum < 2 ^ 64) :
    (params.map fun vt => PlayStmt.totalSizeAdd (vt.name ++ "_length")).foldlM (PlayStmt.exec sizeof api) s =
      some { s with totalSize := s.totalSize + (params.map client.length).sum } := by
  induction params generalizing s with
  | nil => rfl
  | cons vt rest ih =>
    obtain ⟨⟨mem, ptr⟩, others⟩ := forall_mem_cons.mp listed
    obtain ⟨length, found, name, scalar⟩ := lengths vt mem ptr
    obtain ⟨value, field, what⟩ := field_delivered layout values buf found
    rw [scalar, bne_self_eq_false, Bool.and_false, if_neg Bool.false_ne_true] at what
    rw [name] at field what
    rw [map_cons, sum_cons, ← add_assoc] at fits
    have wrap : (s.totalSize + value) % 2 ^ 64 = s.totalSize + client.length vt := by
      rw [what]
      exact Nat.mod_eq_of_lt ((Nat.le_add_right _ _).trans_lt fits)
    have add : (PlayStmt.totalSizeAdd (vt.name ++ "_length")).exec sizeof api s =
        some { s with totalSize := s.totalSize + client.length vt } := by
      rw [PlayStmt.exec, field, ← wrap]
      rfl
    have step := @ih others { s with totalSize := s.totalSize + client.length vt } buf fits
    rw [map_cons, foldlM_cons, add, bind_eq_bind, bind_some, step, map_cons, sum_cons, add_assoc]

theorem exec_call {s : Playing} {args : List PlayArg} {received : List Received}
    (evaluated : args.mapM (PlayArg.eval sizeof api s) = some received) :
    (PlayStmt.call args).exec sizeof api s = some { s with done := s.done ++ [.call received] } := by
  rw [PlayStmt.exec, evaluated]
  rfl

theorem returns_iff (inlined : hasInlineDataPointers api = true) :
    (client.dataSize api.params ≠ 0 ∧ messageSize sizeof api client = api.cmdSize sizeof) ↔
      client.dataSize api.params ≥ mMaxInlineSize := by
  rw [messageSize, Client.copies, inlined, Bool.true_and]
  by_cases inline : client.dataSize api.params < mMaxInlineSize
  · rw [decide_eq_true inline, if_pos rfl]
    omega
  · rw [decide_eq_false inline, if_neg Bool.false_ne_true]
    rw [mMaxInlineSize] at inline ⊢
    omega

theorem needFlush_ne_zero (unnamed : api.ret.hasTypeName = false) :
    (api.sync || (api.params.map (·.ptrLevel)).sum != 0) = true ↔ needFlush api ≠ 0 := by
  rw [needFlush, unnamed, Bool.false_or]
  cases api.sync with
  | true => simp
  | false => simp

def received (sizeof : String → Nat) (id : Nat) (api : ApiEntry) (client : Client) (garbage mSendBuffer : Memory) :
    Playing :=
  { buf := delivered sizeof id api client garbage mSendBuffer, cmdSizeBytes := messageSize sizeof api client }

section

variable (layout : LaidOut sizeof api) (values : ∀ vt ∈ api.params, client.arg vt.name < 256 ^ vt.size sizeof)
  (lengths : HasLengths api.params) (fits : client.dataSize api.params < 2 ^ 64)

include layout values lengths fits

theorem play_inlined (inlined : hasInlineDataPointers api = true) {args : List Received}
    (evaluated : (api.params.map (printPlayArg true)).mapM (PlayArg.eval sizeof api
      { received sizeof id api client garbage mSendBuffer with baseData := baseOf sizeof api client }) = some args) :
    (printPlaybackCpp api).foldlM (PlayStmt.exec sizeof api) (received sizeof id api client garbage mSendBuffer) =
      PlayStmt.setReturnIfLarge.exec sizeof api
        { received sizeof id api client garbage mSendBuffer with
          baseData := baseOf sizeof api client, done := [.call args]
          totalSize := client.dataSize api.params } := by
  have counted := @exec_totalSize _ _ _ _ _ mSendBuffer id layout values lengths (fun vt mem => mem_filter.mp mem)
    { received sizeof id api client garbage mSendBuffer with baseData := baseOf sizeof api client, done := [.call args] }
    rfl (by rw [received, zero_add]; exact fits)
  have first : PlayStmt.baseData.exec sizeof api (received sizeof id api client garbage mSendBuffer) =
      some { received sizeof id api client garbage mSendBuffer with baseData := baseOf sizeof api client } := by
    rw [PlayStmt.exec, baseOf, inlined, if_pos rfl]
    rfl
  have zero (s : Playing) : PlayStmt.totalSizeZero.exec sizeof api s = some { s with totalSize := 0 } := rfl
  rw [printPlaybackCpp]
  simp only [inlined, if_true]
  rw [singleton_append, foldlM_cons, first, bind_eq_bind, bind_some, foldlM_cons,
    exec_call evaluated, bind_eq_bind, bind_some, cons_append, foldlM_cons, zero,
    bind_eq_bind, bind_some, foldlM_append]
  refine (congrArg (· >>= _) counted).trans ?_
  rw [bind_eq_bind, bind_some, received, zero_add]
  exact bind_pure _

theorem play_eq :
    ∃ playing args, (printPlaybackCpp api).foldlM (PlayStmt.exec sizeof api)
        (received sizeof id api client garbage mSendBuffer) = some playing ∧
      playing.buf = delivered sizeof id api client garbage mSendBuffer ∧
      playing.done = .call args :: (returnSizes sizeof api client).map .coreSetReturn ∧
      List.Forall₂ (Agrees client (delivered sizeof id api client garbage mSendBuffer)
        (returnSizes sizeof api client ≠ [])) api.params args := by
  obtain ⟨args, evaluated, agree⟩ := mapM_forall₂ fun vt mem =>
    @eval_argument sizeof api client garbage _ id layout values
      { received sizeof id api client garbage mSendBuffer with baseData := baseOf sizeof api client } rfl rfl vt mem
  suffices played : ∃ playing, (printPlaybackCpp api).foldlM (PlayStmt.exec sizeof api)
        (received sizeof id api client garbage mSendBuffer) = some playing ∧
      playing.buf = delivered sizeof id api client garbage mSendBuffer ∧ playing.done = .call args :: (returnSizes sizeof api client).map .coreSetReturn by
    obtain ⟨playing, run, buf, done⟩ := played
    exact ⟨playing, args, run, buf, done, agree⟩
  cases inlined : hasInlineDataPointers api with
  | true =>
    rw [inlined] at evaluated
    rw [play_inlined layout values lengths fits inlined evaluated, PlayStmt.exec, returnSizes, inlined, if_pos rfl]
    refine ⟨_, rfl, ?_⟩
    have iff := @returns_iff sizeof _ client inlined
    by_cases large : client.dataSize api.params ≥ mMaxInlineSize
    · rw [if_pos large, if_pos (by exact iff.mpr large)]
      exact ⟨rfl, rfl⟩
    · rw [if_neg large, if_neg (by exact fun both => large (iff.mp both))]
      exact ⟨rfl, rfl⟩
  | false =>
    have none : baseOf sizeof api client = none := by
      rw [baseOf, inlined]
      rfl
    rw [inlined, none] at evaluated
    rw [printPlaybackCpp, returnSizes]
    simp only [inlined, Bool.false_eq_true, if_false, nil_append]
    have called := @exec_call _ api (received sizeof id api client garbage mSendBuffer) _ args evaluated
    rw [foldlM_cons, called, bind_eq_bind, bind_some]
    cases named : api.ret.hasTypeName with
    | true => exact ⟨_, rfl, rfl, rfl⟩
    | false =>
      simp only [Bool.false_eq_true, if_false, needFlush_ne_zero named]
      by_cases flush : needFlush api ≠ 0
      · rw [if_pos flush, if_pos flush]
        exact ⟨_, rfl, rfl, rfl⟩
      · rw [if_neg flush, if_neg flush]
        exact ⟨_, rfl, rfl, rfl⟩

end

/-!
## A call and its playback
-/

theorem declare_params (declared : List VarType) (before : ApiEntry) : (declared.foldl ApiEntry.param before).params =
      before.params ++ declared.flatMap fun vt => vt :: checkPointerType vt := by
  induction declared generalizing before with
  | nil => exact (append_nil _).symm
  | cons vt rest ih =>
    simp [ih, ApiEntry.param]

structure Plain (sizeof : String → Nat) (declared : List VarType) (api : ApiEntry) : Prop where
  takes_context : api.nocontext = false
  not_direct : api.direct = false
  not_handcoded : api.handcodeApi = false
  declares : { api with params := [] }.declare declared = api
  values : ∀ vt ∈ declared, vt.ptrLevel = 0 → vt.size sizeof ∈ [1, 2, 4, 8]
  pointers : ∀ vt ∈ declared, vt.ptrLevel ≠ 0 → vt.ptrLevel = 1 ∧ vt.hasTypeName = true
  size_t : sizeof "size_t" = 8
  -- the members of `RS_CMD`
  names : (api.params.map (·.name)).Nodup
  few : api.params.length ≤ 16

namespace Plain

variable {declared : List VarType}

theorem params_eq (plain : Plain sizeof declared api) : api.params = declared.flatMap fun vt => vt :: checkPointerType vt := by
  have params := congrArg ApiEntry.params plain.declares
  rw [ApiEntry.declare, declare_params, nil_append] at params
  exact params.symm

theorem mem_params (plain : Plain sizeof declared api) (listed : vt ∈ api.params) :
    vt ∈ declared ∨ vt.ptrLevel = 0 ∧ vt.type = .named "size_t" := by
  rw [plain.params_eq] at listed
  obtain ⟨base, mem, here⟩ := mem_flatMap.mp listed
  rcases mem_cons.mp here with rfl | len
  · exact .inl mem
  · obtain ⟨level, lt, rfl⟩ := List.mem_map.mp len
    refine .inr ⟨?_, rfl⟩
    by_cases scalar : base.ptrLevel = 0
    · rw [scalar] at lt
      cases lt
    · rw [(plain.pointers base mem scalar).1] at lt
      exact Nat.lt_one_iff.mp (mem_range.mp lt)

theorem sized (plain : Plain sizeof declared api) : Sized sizeof api.params := by
  intro vt listed
  by_cases ptr : vt.ptrLevel = 0
  · rcases plain.mem_params listed with mem | ⟨_, named⟩
    · have size := plain.values vt mem ptr
      simp only [mem_cons, not_mem_nil, or_false] at size
      omega
    · have size : vt.size sizeof = 8 := by
        rw [VarType.size, ptr, named]
        exact plain.size_t
      rw [size]
      decide
  · have size : vt.size sizeof = 8 := if_pos (bne_iff_ne.mpr ptr)
    rw [size]
    decide

theorem lengths (plain : Plain sizeof declared api) : HasLengths api.params := by
  intro vt listed ptr
  have level := bne_iff_ne.mp ptr
  have mem : vt ∈ declared := by
    rcases plain.mem_params listed with mem | ⟨scalar, _⟩
    · exact mem
    · exact absurd scalar level
  have one := (plain.pointers vt mem level).1
  refine ⟨{ type := .named "size_t", name := vt.name ++ "_length" }, ?_, rfl, rfl⟩
  rw [plain.params_eq]
  refine mem_flatMap.mpr ⟨vt, mem, mem_cons_of_mem vt ?_⟩
  rw [checkPointerType, one]
  exact mem_singleton.mpr rfl

theorem laidOut (plain : Plain sizeof declared api) : LaidOut sizeof api := Commands.laidOut plain.sized plain.names plain.few

end Plain

theorem playCoreCommand_eq (layout : LaidOut sizeof api) {apis : List ApiEntry}
    (mem : apis[index]? = some api) (few : apis.length ≤ 128) (played : api.direct = false) (rest : List UInt8) :
    playCoreCommand sizeof apis garbage (read (putAll mSendBuffer (messageWrites sizeof (cmdID index) api client))
          ⟨0, messageSize sizeof api client + headerSize⟩ ++ rest) = do
      let playing ← (printPlaybackCpp api).foldlM (PlayStmt.exec sizeof api)
        (received sizeof (cmdID index) api client garbage mSendBuffer)
      return (playing, rest) := by
  have small := @messageSize_le _ api client layout
  have apart := @messageWrites_apart _ api client layout (cmdID index)
  have within : index < 128 := (List.getElem?_eq_some_iff.mp mem).1.trans_le few
  have memory : ∃ memory, memory = putAll mSendBuffer (messageWrites sizeof (cmdID index) api client) := ⟨_, rfl⟩
  obtain ⟨memory, written⟩ := memory
  have size : read memory ⟨4, 4⟩ = encode 4 (messageSize sizeof api client) :=
    written ▸ read_putAll apart mSendBuffer mem_cons_self
  have number : read memory ⟨0, 4⟩ = encode 4 (cmdID index) :=
    written ▸ read_putAll apart mSendBuffer (mem_cons_of_mem _ mem_cons_self)
  have length : (read memory ⟨0, messageSize sizeof api client + headerSize⟩).length =
      messageSize sizeof api client + headerSize := length_read _ _
  have first : (read memory ⟨0, messageSize sizeof api client + headerSize⟩ ++ rest).take 4 = encode 4 (cmdID index) := by
    have whole := take_drop_read memory (by rw [headerSize]; omega : 0 + 4 ≤ messageSize sizeof api client + headerSize)
    rw [drop_zero] at whole
    rw [take_append_of_le_length (by rw [length, headerSize]; omega), whole, number]
  have second : ((read memory ⟨0, messageSize sizeof api client + headerSize⟩ ++ rest).drop 4).take 4 =
      encode 4 (messageSize sizeof api client) := by
    have whole := take_drop_read memory (by rw [headerSize]; omega : 4 + 4 ≤ messageSize sizeof api client + headerSize)
    rw [drop_append_of_le_length (by rw [length, headerSize]; omega),
      take_append_of_le_length (by rw [length_drop, length, headerSize]; omega), whole, size]
  have found : ((gPlaybackFuncs apis)[cmdID index]?).join = some api := by
    rw [gPlaybackFuncs, cmdID, List.getElem?_cons_succ, List.getElem?_map, mem]
    simp [played]
  have room : headerSize + messageSize sizeof api client ≤ bufferSize ∧ headerSize + messageSize sizeof api client ≤
        (read memory ⟨0, messageSize sizeof api client + headerSize⟩ ++ rest).length := by
    rw [length_append, length, headerSize, bufferSize]
    omega
  have numbered : decode (encode 4 (cmdID index)) = cmdID index := decode_encode (by rw [cmdID]; omega)
  have sized : decode (encode 4 (messageSize sizeof api client)) = messageSize sizeof api client := decode_encode (by omega)
  rw [← written, playCoreCommand, first, second, numbered, sized]
  simp only [found, if_pos room, bind_eq_bind, bind_some]
  rw [add_comm headerSize, take_left' length, drop_left' length, received, delivered, ← written]

/-- The sender and the playback function of a plain entry agree. -/
theorem sender_agrees_with_playback {declared : List VarType} (plain : Plain sizeof declared api)
    {apis : List ApiEntry} {index : Nat} (listed : apis[index]? = some api) (few : apis.length ≤ 128)
    (values : ∀ vt ∈ api.params, client.arg vt.name < 256 ^ vt.size sizeof)
    (lengths : client.dataSize api.params < 2 ^ 64) (mSendBuffer garbage : Memory) (rest : List UInt8) :
    ∃ sending playing args, send sizeof index api client mSendBuffer = some sending ∧ sending.sent.length ≤ bufferSize ∧
      playCoreCommand sizeof apis garbage (sending.sent ++ rest) = some (playing, rest) ∧
      playing.done = .call args :: sending.waits.map .coreSetReturn ∧ sending.waits.length ≤ 1 ∧
      List.Forall₂ (Agrees client playing.buf (sending.waits ≠ [])) api.params args := by
  have layout := plain.laidOut
  have small := @messageSize_le _ api client layout
  obtain ⟨sending, run, sent, waits⟩ := send_eq layout lengths index mSendBuffer
  obtain ⟨playing, args, played, buf, done, agree⟩ := play_eq layout values plain.lengths lengths
  refine ⟨sending, playing, args, run, ?_, ?_, waits ▸ done, ?_, ?_⟩
  · rw [sent, length_read, headerSize, bufferSize]
    simp only
    omega
  · rw [sent, playCoreCommand_eq layout listed few plain.not_direct, played]
    rfl
  · rw [waits, returnSizes]
    split_ifs
    all_goals simp
  · rw [buf, waits]
    exact agree

/-- `ScriptSetVarV` of rs.spec. -/
def scriptSetVarV : List VarType :=
  [{ type := .named "RsScript", name := "s" }, { type := .named "uint32_t", name := "slot" },
    { isConst := true, type := .named "void", ptrLevel := 1, name := "data" }]

def sizeofTypes (typeName : String) : Nat := if typeName = "uint32_t" then 4 else 8

theorem plain_scriptSetVarV : Plain sizeofTypes scriptSetVarV (ApiEntry.declare { name := "ScriptSetVarV" } scriptSetVarV) where
  takes_context := rfl
  not_direct := rfl
  not_handcoded := rfl
  declares := rfl
  values := by decide
  pointers := by decide
  size_t := by decide
  names := by decide
  few := by decide

def scriptSetVarVArgs : Client where
  memory := UInt8.ofNat
  arg name := if name = "data" then 4096 else if name = "data_length" then 100 else 7

theorem sender_agrees_with_playback_scriptSetVarV : ∃ sending playing args,
      send sizeofTypes 0 (ApiEntry.declare { name := "ScriptSetVarV" } scriptSetVarV) scriptSetVarVArgs
        (fun _ => 0) = some sending ∧
      sending.sent.length ≤ bufferSize ∧
      playCoreCommand sizeofTypes [ApiEntry.declare { name := "ScriptSetVarV" } scriptSetVarV] (fun _ => 0)
        (sending.sent ++ []) = some (playing, []) ∧
      playing.done = .call args :: sending.waits.map .coreSetReturn ∧ sending.waits.length ≤ 1 ∧
      List.Forall₂ (Agrees scriptSetVarVArgs playing.buf (sending.waits ≠ []))
        (ApiEntry.declare { name := "ScriptSetVarV" } scriptSetVarV).params args :=
  sender_agrees_with_playback plain_scriptSetVarV rfl (by decide) (by decide) (by decide) (fun _ => 0) (fun _ => 0) []

end

end RenderScript.Commands
