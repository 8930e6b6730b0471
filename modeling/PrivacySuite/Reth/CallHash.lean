import PrivacySuite.NodeApproval.CallRow

/-!
# The calls fingerprint of the Reth node

`fingerprint` of the Reth node's `call_hash.rs`, up to the hash: one recursion over
the call frames that resolves the storage account, writes the record and counts; the
count is written into the header at the end.

`Encoder` is the shared `Buffer`, its `count` the number of the next frame; the lookup
of a code hash is a parameter.
-/

namespace PrivacySuite.Reth

open Codec Data NodeApproval Phase List

/-- A `CallFrame` without its `calls`, and without the fields no fingerprint of the
calls reads. -/
structure Frame where
  typ : String
  fromAddr : Address
  toAddr : Option Address
  value : Option (BitVec 256)
  input : List UInt8
  error : Option String

abbrev CallFrame := Rose Frame

def callDomain : List UInt8 := ascii "OPS_CALLS_V3\x00"

def callLimit : Nat := 1048576

def keccak256Empty : Hash := emptyCodeHash

def zeroHash : Hash := block 32 []

def callKind (typ : String) : Except String UInt8 :=
  if typ = "CALL" then .ok 1
  else if typ = "STATICCALL" then .ok 2
  else if typ = "DELEGATECALL" then .ok 3
  else if typ = "CALLCODE" then .ok 4
  else .error "lifecycle/unknown operation under call-only approval"

def okOr {α : Type} (x : Option α) (text : String) : Except String α :=
  match x with
  | some a => .ok a
  | none => .error text

/-- The account whose storage the frame runs in. -/
def storageOf (kind : UInt8) (parentStorage : Option Address) (toAddr : Address) :
    Except String Address :=
  if kind = 3 ∨ kind = 4 then okOr parentStorage "root delegate" else .ok toAddr

/-- The code hash that is written: an account that does not exist has no code. -/
def writtenCode (code : Hash) : Hash := if code = zeroHash then keccak256Empty else code

section

variable (code : Address → Except String Hash)

/-- `Encoder::call` before its `calls`; the storage account is handed on to them. -/
def callFrame (call : Frame) (parent : Nat) (parentStorage : Option Address) (e : Buffer) :
    Except String (Address × Buffer) := do
  onlyIf (128 ≤ e.index) (.error "more than 128 calls")
  let kind ← callKind call.typ
  let toAddr ← okOr call.toAddr "missing call destination"
  let storage ← storageOf kind parentStorage toAddr
  onlyIf (e.buf.length + 134 + call.input.length > callLimit)
    (.error "call fingerprint exceeds 1 MiB")
  let codeHash ← code toAddr
  return (storage, {
    buf := e.buf ++ beBytes 4 parent ++ [kind] ++ call.fromAddr.toList ++ toAddr.toList ++
      storage.toList ++ (writtenCode codeHash).toList ++
      beBytes 32 (call.value.getD 0).toNat ++ [if call.error.isSome then 1 else 0] ++
      beBytes 4 call.input.length ++ call.input
    index := e.index + 1 })

mutual

/-- `Encoder::call`. -/
def call (parent : Nat) (parentStorage : Option Address) :
    CallFrame → Buffer → Except String Buffer
  | .node frame calls, e => do
      let (storage, e') ← callFrame code frame parent parentStorage e
      callAll e.index (some storage) calls e'

def callAll (parent : Nat) (parentStorage : Option Address) :
    List CallFrame → Buffer → Except String Buffer
  | [], e => .ok e
  | child :: calls, e => do
      let e ← call parent parentStorage child e
      callAll parent parentStorage calls e

end

/-- `scratch[13..17].copy_from_slice(&count.to_be_bytes())`. -/
def patchCount (e : Buffer) : List UInt8 :=
  e.buf.take callDomain.length ++ beBytes 4 e.index ++ e.buf.drop (callDomain.length + 4)

/-- The bytes `fingerprint` hashes. -/
def callBytes (frame : CallFrame) : Except String (List UInt8) := do
  let e ← call code (2 ^ 32 - 1) none frame ⟨callDomain ++ beBytes 4 0, 0⟩
  return patchCount e

/-! ## Rows -/

def rowOf (parentStorage : Option Address) (call : Frame) : Except String CallRow := do
  let kind ← callKind call.typ
  let toAddr ← okOr call.toAddr "missing call destination"
  let storage ← storageOf kind parentStorage toAddr
  let codeHash ← code toAddr
  return {
    kind
    sender := call.fromAddr
    target := toAddr
    storage
    code := writtenCode codeHash
    value := beBytes 32 (call.value.getD 0).toNat
    failed := call.error.isSome
    input := call.input }

def putCounted (parent : Nat) (row : CallRow) (e : Buffer) : Except String Buffer := do
  onlyIf (128 ≤ e.index) (.error "more than 128 calls")
  putRow parent row e

variable {parent : Nat} {row : CallRow} {e e' : Buffer} {frame : Frame}
  {parentStorage : Option Address}

theorem putCounted_eq_ok :
    putCounted parent row e = .ok e' ↔ e.index < 128 ∧ putRow parent row e = .ok e' := by
  rw [putCounted, onlyIf_error_bind_eq_ok, Nat.not_le]

theorem callFrame_eq_ok {result : Address × Buffer} :
    callFrame code frame parent parentStorage e = .ok result ↔
      ∃ row, rowOf code parentStorage frame = .ok row ∧
        putCounted parent row e = .ok result.2 ∧ result.1 = row.storage := by
  unfold callFrame rowOf
  simp only [↓onlyIf_error_bind_eq_ok, Phase.bind_eq_ok, Phase.pure_eq_ok, putCounted_eq_ok,
    putRow_eq_ok, Nat.not_lt, Nat.not_le, CallRow.bytes, CallRow.tail, failedByte,
    append_assoc, cons_append, nil_append]
  unfold callLimit
  constructor
  · rintro ⟨hcount, kind, hkind, toAddr, hto, storage, hstorage, hfits, codeHash, hcode, rfl⟩
    exact ⟨_, ⟨kind, hkind, toAddr, hto, storage, hstorage, codeHash, hcode, rfl⟩,
      ⟨hcount, hfits, rfl⟩, rfl⟩
  · rintro ⟨row, ⟨kind, hkind, toAddr, hto, storage, hstorage, codeHash, hcode, rfl⟩,
      ⟨hcount, hfits, hbuf⟩, hresult⟩
    refine ⟨hcount, kind, hkind, toAddr, hto, storage, hstorage, hfits, codeHash, hcode, ?_⟩
    exact Prod.ext hresult.symm hbuf.symm

theorem call_walks :
    Rose.Walks parentNumber (fun row => some row.storage) (rowOf code) putCounted Buffer.index
      (call code) (callAll code) where
  node := by
    intro parent parentStorage frame calls e e'
    rw [call]
    simp only [Phase.bind_eq_ok, callFrame_eq_ok]
    constructor
    · rintro ⟨⟨storage, e₁⟩, ⟨row, hrow, hput, rfl⟩, hrest⟩
      exact ⟨row, e₁, hrow, hput, hrest⟩
    · rintro ⟨row, e₁, hrow, hput, hrest⟩
      exact ⟨(row.storage, e₁), ⟨row, hrow, hput, rfl⟩, hrest⟩
  nil := by
    intro parent parentStorage e e'
    rw [callAll, Except.ok.injEq, eq_comm]
  cons := by
    intro parent parentStorage child calls e e'
    rw [callAll, Phase.bind_eq_ok]
  advance := by
    intro parent row e e₁ h
    rw [(putRow_eq_ok.mp (putCounted_eq_ok.mp h).2).2]

theorem putCounted_loop_iff {entries : List (Option Nat × CallRow)}
    (h : ∀ entry ∈ entries, entry.2.Whole) (he : e.buf.length ≤ 2 ^ 20) (hindex : e.index ≤ 128) :
    Rose.Walks.loop parentNumber putCounted entries e = .ok e' ↔
      e.index + entries.length ≤ 128 ∧ Rose.Walks.loop parentNumber putRow entries e = .ok e' := by
  induction entries generalizing e with
  | nil =>
    rw [Rose.Walks.loop_nil, Rose.Walks.loop_nil]
    exact ⟨fun heq => ⟨hindex, heq⟩, And.right⟩
  | cons entry entries ih =>
    have hwhole := fun e he => h e (mem_cons_of_mem entry he)
    have hhead := entry.2.length_bytes (h entry mem_cons_self) (parentNumber entry.1)
    rw [Rose.Walks.loop_cons, Rose.Walks.loop_cons, length_cons]
    -- behind a record that was added the hypotheses hold again
    have hnext : ∀ {e₁ : Buffer}, e.index < 128 →
        putRow (parentNumber entry.1) entry.2 e = .ok e₁ →
        e₁.index = e.index + 1 ∧ (Rose.Walks.loop parentNumber putCounted entries e₁ = .ok e' ↔
          e₁.index + entries.length ≤ 128 ∧
            Rose.Walks.loop parentNumber putRow entries e₁ = .ok e') := by
      intro e₁ hroom hput
      obtain ⟨hfits, rfl⟩ := putRow_eq_ok.mp hput
      refine ⟨rfl, ih hwhole ?_ ?_⟩
      · show (e.buf ++ entry.2.bytes _).length ≤ 2 ^ 20
        rw [length_append, hhead]
        omega
      · show e.index + 1 ≤ 128
        omega
    constructor
    · rintro ⟨e₁, hput, hrest⟩
      obtain ⟨hroom, hput⟩ := putCounted_eq_ok.mp hput
      obtain ⟨hsucc, hiff⟩ := hnext hroom hput
      obtain ⟨hcount, hloop⟩ := hiff.mp hrest
      exact ⟨by omega, e₁, hput, hloop⟩
    · rintro ⟨hcount, e₁, hput, hrest⟩
      have hroom : e.index < 128 := by omega
      obtain ⟨hsucc, hiff⟩ := hnext hroom hput
      exact ⟨e₁, putCounted_eq_ok.mpr ⟨hroom, hput⟩, hiff.mpr ⟨by omega, hrest⟩⟩

/-! ## What is hashed -/

theorem whole_of_rowOf (h : rowOf code parentStorage frame = .ok row) : row.Whole := by
  unfold rowOf at h
  simp only [Phase.bind_eq_ok, Phase.pure_eq_ok] at h
  obtain ⟨kind, -, toAddr, -, storage, -, codeHash, -, rfl⟩ := h
  exact length_beBytes _ _

def rowsOf (frame : CallFrame) : Except String (Rose CallRow) :=
  Rose.annotateM (fun row => some row.storage) (rowOf code) none frame

theorem whole_of_rowsOf {frame : CallFrame} {u : Rose CallRow} (h : rowsOf code frame = .ok u) :
    ∀ row ∈ u.labels, row.Whole := by
  intro row hrow
  have hrel : Rose.Rel (fun _ row => row.Whole) frame u := by
    refine Rose.rel_of_annotateM ?_ h
    intro parentStorage f row hrow
    exact whole_of_rowOf code hrow
  obtain ⟨-, -, hwhole⟩ := hrel.exists_of_mem_labels hrow
  exact hwhole

/-- The node hashes the encoding of the rows of the tree, if there are at most 128 and
they fit. -/
theorem callBytes_eq_ok {frame : CallFrame} {bytes : List UInt8} :
    callBytes code frame = .ok bytes ↔
      ∃ u, rowsOf code frame = .ok u ∧ u.size ≤ 128 ∧ 17 + rowsSize u.labels ≤ 2 ^ 20 ∧
        bytes = encoding u := by
  have hloop : ∀ {u : Rose CallRow} {e : Buffer}, rowsOf code frame = .ok u →
      (Rose.Walks.loop parentNumber putCounted (u.listing none 0) ⟨callHeader 0, 0⟩ = .ok e ↔
        u.size ≤ 128 ∧ 17 + rowsSize u.labels ≤ 2 ^ 20 ∧
          e = ⟨callHeader 0 ++ rowBytes (u.listing none 0), 0 + u.size⟩) := by
    intro u e hu
    have hwhole := whole_of_rowsOf code hu
    rw [putCounted_loop_iff (fun _ hentry => hwhole _ (Rose.snd_mem_labels hentry))
      (by rw [length_callHeader]; decide) (Nat.zero_le _), putRow_listing_iff hwhole,
      u.length_listing, Nat.zero_add]
  have hpatch : ∀ u : Rose CallRow,
      patchCount ⟨callHeader 0 ++ rowBytes (u.listing none 0), 0 + u.size⟩ = encoding u := by
    intro u
    show (callHeader 0 ++ _).take NodeApproval.callDomain.length ++ beBytes 4 (0 + u.size) ++
      (callHeader 0 ++ _).drop (NodeApproval.callDomain.length + 4) = encoding u
    rw [Nat.zero_add, length_callDomain, drop_left' (length_callHeader 0), callHeader,
      append_assoc NodeApproval.callDomain, take_left' length_callDomain]
    rfl
  unfold callBytes
  simp only [Phase.bind_eq_ok, Phase.pure_eq_ok]
  show (∃ e, call code (parentNumber none) none frame ⟨callHeader 0, 0⟩ = .ok e ∧ _) ↔ _
  simp only [(call_walks code).ok_iff]
  constructor
  · rintro ⟨e, ⟨u, hu, hput⟩, rfl⟩
    obtain ⟨hsize, hfits, rfl⟩ := (hloop hu).mp hput
    exact ⟨u, hu, hsize, hfits, hpatch u⟩
  · rintro ⟨u, hu, hsize, hfits, rfl⟩
    exact ⟨_, ⟨u, hu, (hloop hu).mpr ⟨hsize, hfits, rfl⟩⟩, hpatch u⟩

end

end PrivacySuite.Reth
