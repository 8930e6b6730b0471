import PrivacySuite.Data.Rose
import PrivacySuite.NodeApproval.SignedBatch

/-!
# The records of a calls fingerprint

What the fingerprint of a call tree is computed from: a domain, the number of frames,
and one record for each frame in pre-order, which names its parent by number. A
record is 134 bytes and the input, and the whole may not be longer than 1 MiB.

The records of a tree determine the tree (`encoding_injective`).
-/

namespace PrivacySuite.NodeApproval

open Codec Data Phase List

/-- The hash of no code. -/
def emptyCodeHash : Hash :=
  block 32 [0xc5, 0xd2, 0x46, 0x01, 0x86, 0xf7, 0x23, 0x3c, 0x92, 0x7e, 0x7d, 0xb2, 0xdc, 0xc7,
    0x03, 0xc0, 0xe5, 0x00, 0xb6, 0x53, 0xca, 0x82, 0x27, 0x3b, 0x7b, 0xfa, 0xd8, 0x04, 0x5d, 0x85,
    0xa4, 0x70]

structure CallRow where
  kind : UInt8
  sender : Address
  target : Address
  storage : Address
  code : Hash
  value : List UInt8
  failed : Bool
  input : List UInt8

def parentNumber : Option Nat → Nat
  | none => 2 ^ 32 - 1
  | some i => i

def failedByte (failed : Bool) : UInt8 := if failed then 1 else 0

namespace CallRow

def tail (row : CallRow) : List UInt8 :=
  row.value ++ (failedByte row.failed :: (beBytes 4 row.input.length ++ row.input))

def bytes (parent : Nat) (row : CallRow) : List UInt8 :=
  beBytes 4 parent ++ (row.kind :: (row.sender.toList ++ (row.target.toList ++
    (row.storage.toList ++ (row.code.toList ++ row.tail)))))

/-- The value takes a word. -/
def Whole (row : CallRow) : Prop := row.value.length = 32

variable {row : CallRow}

theorem length_bytes (h : row.Whole) (parent : Nat) :
    (row.bytes parent).length = 134 + row.input.length := by
  have hvalue : row.value.length = 32 := h
  simp only [bytes, tail, length_append, length_cons, length_beBytes,
    List.Vector.toList_length, hvalue]
  omega

theorem bytes_append_injective {row' : CallRow} {parent parent' : Nat} {rest rest' : List UInt8}
    (h : row.Whole) (h' : row'.Whole) (hp : parent < 256 ^ 4) (hp' : parent' < 256 ^ 4)
    (hinput : row.input.length < 256 ^ 4) (hinput' : row'.input.length < 256 ^ 4)
    (heq : row.bytes parent ++ rest = row'.bytes parent' ++ rest') :
    parent = parent' ∧ row = row' ∧ rest = rest' := by
  have hvalue : row.value.length = row'.value.length := h.trans h'.symm
  simp only [bytes, tail, append_assoc, cons_append] at heq
  obtain ⟨hparent, heq⟩ := append_inj heq (by simp)
  obtain ⟨hkind, heq⟩ := List.cons.inj heq
  obtain ⟨hsender, heq⟩ := append_inj heq (by simp)
  obtain ⟨htarget, heq⟩ := append_inj heq (by simp)
  obtain ⟨hstorage, heq⟩ := append_inj heq (by simp)
  obtain ⟨hcode, heq⟩ := append_inj heq (by simp)
  obtain ⟨hvalues, heq⟩ := append_inj heq hvalue
  obtain ⟨hfailed, heq⟩ := List.cons.inj heq
  obtain ⟨hlength, heq⟩ := append_inj heq (by simp)
  have hlen := beBytes_injective hinput hinput' hlength
  obtain ⟨hin, hrest⟩ := append_inj heq hlen
  refine ⟨beBytes_injective hp hp' hparent, ?_, hrest⟩
  have hflag : row.failed = row'.failed := by
    revert hfailed
    cases row.failed <;> cases row'.failed <;> decide
  obtain ⟨kind, sender, target, storage, code, value, failed, input⟩ := row
  obtain ⟨kind', sender', target', storage', code', value', failed', input'⟩ := row'
  simp only [CallRow.mk.injEq]
  exact ⟨hkind, Subtype.ext hsender, Subtype.ext htarget, Subtype.ext hstorage, Subtype.ext hcode,
    hvalues, hflag, hin⟩

end CallRow

/-! ## The encoder -/

structure Buffer where
  buf : List UInt8
  index : Nat

def callDomain : List UInt8 := ascii "OPS_CALLS_V3\x00"

@[simp] theorem length_callDomain : callDomain.length = 13 := by decide

def callHeader (count : Nat) : List UInt8 := callDomain ++ beBytes 4 count

@[simp] theorem length_callHeader (count : Nat) : (callHeader count).length = 17 := by
  rw [callHeader, length_append, length_callDomain, length_beBytes]

def putRow (parent : Nat) (row : CallRow) (s : Buffer) : Except String Buffer :=
  if s.buf.length + 134 + row.input.length > 2 ^ 20 then .error "call fingerprint exceeds 1 MiB"
  else .ok ⟨s.buf ++ row.bytes parent, s.index + 1⟩

variable {s s' : Buffer} {entries : List (Option Nat × CallRow)} {p : Option Nat} {n : Nat}
  {u : Rose CallRow}

theorem putRow_eq_ok {parent : Nat} {row : CallRow} :
    putRow parent row s = .ok s' ↔ s.buf.length + 134 + row.input.length ≤ 2 ^ 20 ∧
      s' = ⟨s.buf ++ row.bytes parent, s.index + 1⟩ := by
  unfold putRow
  split
  · constructor
    · intro h
      cases h
    · rintro ⟨h, -⟩
      omega
  · rw [Except.ok.injEq, eq_comm]
    constructor
    · exact fun h => ⟨by omega, h⟩
    · exact And.right

def rowBytes (entries : List (Option Nat × CallRow)) : List UInt8 :=
  entries.flatMap fun entry => entry.2.bytes (parentNumber entry.1)

def rowsSize (rows : List CallRow) : Nat := (rows.map fun row => 134 + row.input.length).sum

theorem length_rowBytes (h : ∀ entry ∈ entries, entry.2.Whole) :
    (rowBytes entries).length = rowsSize (entries.map Prod.snd) := by
  rw [rowBytes, length_flatMap, rowsSize, map_map]
  exact congrArg List.sum (map_congr_left fun e he => e.2.length_bytes (h e he) _)

theorem putRow_loop_iff (h : ∀ entry ∈ entries, entry.2.Whole) (hs : s.buf.length ≤ 2 ^ 20) :
    Rose.Walks.loop parentNumber putRow entries s = .ok s' ↔
      s.buf.length + rowsSize (entries.map Prod.snd) ≤ 2 ^ 20 ∧
        s' = ⟨s.buf ++ rowBytes entries, s.index + entries.length⟩ := by
  induction entries generalizing s with
  | nil =>
    rw [Rose.Walks.loop_nil]
    have hempty : s = ⟨s.buf ++ rowBytes [], s.index + 0⟩ := by
      rw [show rowBytes [] = [] from rfl, append_nil, Nat.add_zero]
    rw [length_nil, ← hempty]
    exact ⟨fun heq => ⟨hs, heq⟩, And.right⟩
  | cons entry entries ih =>
    have hhead := entry.2.length_bytes (h entry mem_cons_self) (parentNumber entry.1)
    have hwhole := fun e he => h e (mem_cons_of_mem entry he)
    have hsize : rowsSize ((entry :: entries).map Prod.snd) =
        134 + entry.2.input.length + rowsSize (entries.map Prod.snd) := rfl
    have hbytes : rowBytes (entry :: entries) =
        entry.2.bytes (parentNumber entry.1) ++ rowBytes entries := rfl
    rw [Rose.Walks.loop_cons, hsize, hbytes, length_cons]
    simp only [putRow_eq_ok]
    constructor
    · rintro ⟨s₁, ⟨hfits, rfl⟩, hrest⟩
      rw [ih hwhole (by rw [length_append, hhead]; omega), length_append, hhead] at hrest
      obtain ⟨hsum, rfl⟩ := hrest
      refine ⟨by omega, ?_⟩
      rw [append_assoc, Nat.add_assoc, Nat.add_comm 1]
    · rintro ⟨hsum, rfl⟩
      refine ⟨_, ⟨by omega, rfl⟩, ?_⟩
      rw [ih hwhole (by rw [length_append, hhead]; omega), length_append, hhead,
        append_assoc, Nat.add_assoc s.index, Nat.add_comm 1]
      exact ⟨by omega, rfl⟩

/-- The rows of a tree are all added behind a header, exactly when they fit. -/
theorem putRow_listing_iff (h : ∀ row ∈ u.labels, row.Whole) {count : Nat} :
    Rose.Walks.loop parentNumber putRow (u.listing none 0) ⟨callHeader count, 0⟩ = .ok s ↔
      17 + rowsSize u.labels ≤ 2 ^ 20 ∧
        s = ⟨callHeader count ++ rowBytes (u.listing none 0), 0 + u.size⟩ := by
  rw [putRow_loop_iff (fun _ hentry => h _ (Rose.snd_mem_labels hentry))
    (by rw [length_callHeader]; decide), length_callHeader, u.map_snd_listing, u.length_listing]

/-! ## Telling trees apart -/

theorem parentNumber_lt (h : p = none ∨ ∃ m, p = some m ∧ m < n) (hn : n < 2 ^ 32) :
    parentNumber p < 256 ^ 4 := by
  rcases h with rfl | ⟨m, rfl, hm⟩
  · decide
  · show m < 256 ^ 4
    omega

theorem parentNumber_injective {p' : Option Nat} (h : p = none ∨ ∃ m, p = some m ∧ m < n)
    (h' : p' = none ∨ ∃ m, p' = some m ∧ m < n) (hn : n < 2 ^ 32)
    (heq : parentNumber p = parentNumber p') : p = p' := by
  rcases h with rfl | ⟨m, rfl, hm⟩ <;> rcases h' with rfl | ⟨m', rfl, hm'⟩ <;>
    simp only [parentNumber] at heq
  · rfl
  · omega
  · omega
  · rw [heq]

/-- What an encoder that accepts a tree knows of an entry of its listing. -/
def Encodable (n : Nat) (entry : Option Nat × CallRow) : Prop :=
  (entry.1 = none ∨ ∃ m, entry.1 = some m ∧ m < n) ∧ entry.2.Whole ∧ entry.2.input.length < 256 ^ 4

theorem rowBytes_injective (hn : n < 2 ^ 32) {entries' : List (Option Nat × CallRow)}
    (h : ∀ e ∈ entries, Encodable n e) (h' : ∀ e ∈ entries', Encodable n e)
    (hlen : entries.length = entries'.length) (heq : rowBytes entries = rowBytes entries') :
    entries = entries' := by
  induction entries generalizing entries' with
  | nil => exact (length_eq_zero_iff.mp hlen.symm).symm
  | cons entry entries ih =>
    cases entries' with
    | nil => cases hlen
    | cons entry' entries' =>
      obtain ⟨hp, hwhole, hinput⟩ := h entry mem_cons_self
      obtain ⟨hp', hwhole', hinput'⟩ := h' entry' mem_cons_self
      obtain ⟨hparent, hrow, hrest⟩ := CallRow.bytes_append_injective hwhole hwhole'
        (parentNumber_lt hp hn) (parentNumber_lt hp' hn) hinput hinput' heq
      have htail := ih (fun e he => h e (mem_cons_of_mem _ he))
        (fun e he => h' e (mem_cons_of_mem _ he)) (Nat.succ.inj hlen) hrest
      rw [Prod.ext (parentNumber_injective hp hp' hn hparent) hrow, htail]

def encoding (u : Rose CallRow) : List UInt8 := callHeader u.size ++ rowBytes (u.listing none 0)

theorem length_encoding (h : ∀ row ∈ u.labels, row.Whole) :
    (encoding u).length = 17 + rowsSize u.labels := by
  have hwhole : ∀ entry ∈ u.listing none 0, entry.2.Whole := fun _ hentry =>
    h _ (Rose.snd_mem_labels hentry)
  rw [encoding, length_append, length_callHeader, length_rowBytes hwhole, u.map_snd_listing]

theorem encoding_injective {u' : Rose CallRow} (hsize : u.size < 2 ^ 32) (hsize' : u'.size < 2 ^ 32)
    (hrows : ∀ row ∈ u.labels, row.Whole ∧ row.input.length < 256 ^ 4)
    (hrows' : ∀ row ∈ u'.labels, row.Whole ∧ row.input.length < 256 ^ 4)
    (h : encoding u = encoding u') : u = u' := by
  obtain ⟨hheader, hbytes⟩ := append_inj h (by simp)
  have hcount : u.size = u'.size :=
    beBytes_injective hsize hsize' (append_cancel_left hheader)
  have hencodable : ∀ {v : Rose CallRow},
      (∀ row ∈ v.labels, row.Whole ∧ row.input.length < 256 ^ 4) →
      ∀ e ∈ v.listing none 0, Encodable v.size e := by
    intro v hv e he
    have hparent := Rose.parent_of_mem_listing he
    rw [Nat.zero_add] at hparent
    exact ⟨hparent, hv _ (Rose.snd_mem_labels he)⟩
  apply Rose.listing_injective
  apply rowBytes_injective hsize (hencodable hrows) _ _ hbytes
  · rw [hcount]
    exact hencodable hrows'
  · rw [Rose.length_listing, Rose.length_listing, hcount]

end PrivacySuite.NodeApproval
