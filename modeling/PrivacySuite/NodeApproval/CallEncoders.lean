import PrivacySuite.Besu.CallsFingerprint
import PrivacySuite.NodeApproval.CallFingerprint
import PrivacySuite.Reth.CallHash

/-!
# The three calls fingerprints

A tree of plain calls says what was executed. The signer reads it from the objects of a
trace (`Spells`), the Reth node from its call frames (`Reports`), and the Besu plugin
gets the list of its records (`records`). Where the root has a storage account of its
own, the three hash the same bytes or refuse together (`calls_fingerprints_agree`).
-/

namespace PrivacySuite.NodeApproval

open Codec Data Go Phase List

/-! ## Plain calls -/

inductive CallKind where
  | call
  | staticCall
  | delegateCall
  | callCode
  deriving DecidableEq, Repr

namespace CallKind

def name : CallKind → String
  | call => "CALL"
  | staticCall => "STATICCALL"
  | delegateCall => "DELEGATECALL"
  | callCode => "CALLCODE"

def number : CallKind → Nat
  | call => 1
  | staticCall => 2
  | delegateCall => 3
  | callCode => 4

/-- The code runs in the storage of the caller. -/
def delegates : CallKind → Bool
  | call => false
  | staticCall => false
  | delegateCall => true
  | callCode => true

def names : List String := ["CALL", "STATICCALL", "DELEGATECALL", "CALLCODE"]

end CallKind

structure PlainCall where
  kind : CallKind
  sender : Address
  target : Address
  code : Hash
  value : BitVec 256
  failed : Bool
  input : List UInt8

/-- A call with the account whose storage it runs in. -/
structure Placed where
  call : PlainCall
  storage : Address

/-- The storage account of a call: its own target, or what its parent runs in. -/
def PlainCall.place (inherited : Option Address) (c : PlainCall) : Except String Placed :=
  if c.kind.delegates then
    match inherited with
    | some storage => .ok ⟨c, storage⟩
    | none => .error "root delegate"
  else .ok ⟨c, c.target⟩

/-- Every call of a tree with its storage account. -/
def placed (t : Rose PlainCall) : Except String (Rose Placed) :=
  Rose.annotateM (fun p => some p.storage) PlainCall.place none t

namespace Placed

def row (p : Placed) : CallRow where
  kind := UInt8.ofNat p.call.kind.number
  sender := p.call.sender
  target := p.call.target
  storage := p.storage
  code := p.call.code
  value := beBytes 32 p.call.value.toNat
  failed := p.call.failed
  input := p.call.input

def record (parent : Option Nat) (p : Placed) : Besu.CallRecord where
  parent := match parent with
    | some n => n
    | none => Besu.rootParent
  kind := p.call.kind.number
  fromAddr := p.call.sender
  toAddr := p.call.target
  storage := p.storage
  codeHash := p.call.code
  value := p.call.value
  failed := p.call.failed
  input := p.call.input

theorem whole_row (p : Placed) : p.row.Whole := length_beBytes _ _

end Placed

def records (u : Rose Placed) : List Besu.CallRecord :=
  (u.listing none 0).map fun entry => entry.2.record entry.1

def treeBytes (u : Rose Placed) : List UInt8 := encoding (u.map Placed.row)

mutual

theorem annotateM_place_some (storage : Address) (t : Rose PlainCall) :
    ∃ u, Rose.annotateM (fun p => some p.storage) PlainCall.place (some storage) t = .ok u := by
  match t with
  | .node c ts =>
    obtain ⟨p, hp⟩ : ∃ p, c.place (some storage) = .ok p := by
      unfold PlainCall.place
      split
      · exact ⟨_, rfl⟩
      · exact ⟨_, rfl⟩
    obtain ⟨us, hus⟩ := annotateAll_place_some p.storage ts
    exact ⟨_, Rose.annotateM_node_eq_ok.mpr ⟨p, us, hp, hus, rfl⟩⟩

theorem annotateAll_place_some (storage : Address) (ts : List (Rose PlainCall)) :
    ∃ us, Rose.annotateAll (fun p => some p.storage) PlainCall.place (some storage) ts =
      .ok us := by
  match ts with
  | [] => exact ⟨[], rfl⟩
  | t :: ts =>
    obtain ⟨u, hu⟩ := annotateM_place_some storage t
    obtain ⟨us, hus⟩ := annotateAll_place_some storage ts
    exact ⟨_, Rose.annotateAll_cons_eq_ok.mpr ⟨u, us, hu, hus, rfl⟩⟩

end

variable {t : Rose PlainCall} {codes : String → Option Hash} {u : Rose Placed}
  {code : Address → Except String Hash} {frame : Reth.CallFrame} {bytes : List UInt8}

theorem exists_placed (h : t.label.kind.delegates = false) : ∃ u, placed t = .ok u := by
  obtain ⟨c, ts⟩ := t
  have hroot : c.place none = .ok ⟨c, c.target⟩ := by
    rw [PlainCall.place, if_neg]
    rw [show c.kind.delegates = false from h]
    decide
  obtain ⟨us, hus⟩ := annotateAll_place_some c.target ts
  exact ⟨_, Rose.annotateM_node_eq_ok.mpr ⟨_, us, hroot, hus, rfl⟩⟩

theorem length_treeBytes (u : Rose Placed) :
    (treeBytes u).length = 17 + rowsSize (u.map Placed.row).labels := by
  apply length_encoding
  intro row hrow
  rw [← Rose.map_snd_listing none 0, Rose.listing_map, map_map] at hrow
  obtain ⟨⟨parent, p⟩, -, rfl⟩ := mem_map.mp hrow
  exact p.whole_row

/-! ## The signer -/

def addressText (a : Address) : String := "0x" ++ encodeHex a.toList

/-- The members of an object of a trace spell a call. A quantity is `0x` and up to 64
digits, and may be left out for zero; so may an empty input. -/
structure Spells (codes : String → Option Hash) (v : Members) (c : PlainCall) : Prop where
  type : member v "type" = .str c.kind.name
  sender : ∃ text, member v "from" = .str text ∧ spelled text = some c.sender.toList
  target : ∃ text, member v "to" = .str text ∧ spelled text = some c.target.toList
  value : (member v "value" = .null ∧ c.value = 0) ∨
    ∃ digits, member v "value" = .str ("0x" ++ String.ofList digits) ∧ digits.length ≤ 64 ∧
      hexNat digits = some c.value.toNat
  input : (member v "input" = .null ∧ c.input = []) ∨
    ∃ text, member v "input" = .str text ∧ spelled text = some c.input
  failed : (member v "error").isNull = !c.failed
  code : codes (addressText c.target) = some c.code

theorem isHexText_flatMap_hexPair (bytes : List UInt8) :
    Server.isHexText (bytes.flatMap hexPair) = true := by
  rw [Server.isHexText, all_eq_true]
  intro c hc
  obtain ⟨b, -, hb⟩ := mem_flatMap.mp hc
  simp only [hexPair, mem_cons, not_mem_nil, or_false] at hb
  rcases hb with rfl | rfl
  · rw [hexDigit_hexChar (high_lt b)]
    rfl
  · rw [hexDigit_hexChar (low_lt b)]
    rfl

theorem isHexAddress_addressText (a : Address) : Server.isHexAddress (addressText a) = true := by
  have hlist : (addressText a).toList = '0' :: 'x' :: a.toList.flatMap hexPair := by
    rw [addressText, String.toList_append, toList_encodeHex]
    rfl
  have hlen : (a.toList.flatMap hexPair).length = 40 := by
    simp [hexPair, length_flatMap]
  unfold Server.isHexAddress
  rw [hlist]
  show ((a.toList.flatMap hexPair).length == 40 && _) = true
  rw [hlen, isHexText_flatMap_hexPair]
  rfl

def normalCall (v : Members) (c : PlainCall) (storage : String) : NormalFrame where
  type := c.kind.name
  fromAddr := addressText c.sender
  toAddr := addressText c.target
  storageAddress := storage
  input := "0x" ++ encodeHex c.input
  output := field v "output" "0x"
  failed := c.failed
  value := "0x" ++ encodeHex (beBytes 32 c.value.toNat)
  logs := logsOf v

section Signer

variable {codes : String → Option Hash} {v : Members} {c : PlainCall}

theorem Spells.word (h : Spells codes v c) :
    word (member v "value") = .ok ("0x" ++ encodeHex (beBytes 32 c.value.toNat)) := by
  unfold NodeApproval.word
  rw [wordOf_eq_ok]
  rcases h.value with ⟨hnull, hzero⟩ | ⟨digits, hdigits, hlen, hnat⟩
  · rw [hnull, hzero]
    exact ⟨0, by decide, by decide, rfl⟩
  · rw [hdigits, str, trimPrefix_append, String.toList_ofList]
    exact ⟨c.value.toNat, hnat, hlen, rfl⟩

theorem Spells.field_input (h : Spells codes v c) :
    field v "input" "0x" = "0x" ++ encodeHex c.input := by
  unfold field
  rcases h.input with ⟨hnull, hempty⟩ | ⟨text, htext, hspelled⟩
  · rw [hnull, hempty]
    decide
  · rw [htext]
    exact toLower_of_spelled hspelled

theorem Spells.field_from (h : Spells codes v c) : field v "from" "" = addressText c.sender := by
  obtain ⟨text, htext, hspelled⟩ := h.sender
  unfold field
  rw [htext]
  exact toLower_of_spelled hspelled

theorem Spells.field_to (h : Spells codes v c) : field v "to" "" = addressText c.target := by
  obtain ⟨text, htext, hspelled⟩ := h.target
  unfold field
  rw [htext]
  exact toLower_of_spelled hspelled

theorem Spells.normalHead_eq_ok (h : Spells codes v c) {parent : String} {frame : NormalFrame} :
    normalHead parent v = .ok frame ↔
      ∃ storage, storageOf c.kind.name parent (addressText c.sender) (addressText c.target) =
        .ok storage ∧ frame = normalCall v c storage := by
  have htype : str (member v "type") = c.kind.name := by
    rw [h.type]
    rfl
  have hplain : isNoopMarker parent ("0x" ++ encodeHex (beBytes 32 c.value.toNat)) v = false := by
    rw [isNoopMarker, htype]
    cases c.kind <;> rfl
  have hfailed : hasError v = c.failed := by
    rw [hasError, h.failed, Bool.not_not]
  unfold normalHead normalFrame
  rw [htype, h.word]
  simp only [↓onlyIf_error_bind_eq_ok, Phase.bind_eq_ok, Phase.pure_eq_ok, Except.ok.injEq,
    exists_eq_left', hplain, Bool.false_eq_true, if_false, h.field_from, h.field_to, hfailed,
    isHexAddress_addressText, h.field_input]
  have hknown : callTypes.contains c.kind.name = true := by
    cases c.kind <;> rfl
  constructor
  · rintro ⟨-, -, storage, hstorage, rfl⟩
    exact ⟨storage, hstorage, rfl⟩
  · rintro ⟨storage, hstorage, rfl⟩
    exact ⟨by rw [hknown]; decide, by simp, storage, hstorage, rfl⟩

theorem kindByte_name (kind : CallKind) : kindByte kind.name = UInt8.ofNat kind.number := by
  cases kind <;> rfl

theorem kindByte_name_ne_zero (kind : CallKind) : kindByte kind.name ≠ 0 := by
  cases kind <;> decide

theorem Spells.rowOf_normalCall (h : Spells codes v c) (storage : Address) :
    rowOf codes (normalCall v c (addressText storage)) = .ok (Placed.row ⟨c, storage⟩) := by
  refine rowOf_eq_ok.mpr ⟨kindByte_name_ne_zero c.kind, c.code, h.code, c.input,
    hexutilDecode_of_spelled (spelled_encodeHex _), _,
    hexutilDecode_of_spelled (spelled_encodeHex _), ?_⟩
  simp only [Placed.row, normalCall, kindByte_name, addressText, hexToAddress_encodeHex]

/-- What the signer and the tree hand down to the children. -/
def SameContext (parent : String) : Option Address → Prop
  | none => parent = ""
  | some storage => parent = addressText storage

theorem addressText_ne_empty (a : Address) : addressText a ≠ "" := by
  intro h
  have hlen := byteLen_encodeHex a.toList
  rw [show "0x" ++ encodeHex a.toList = "" from h, a.toList_length] at hlen
  exact absurd hlen (by decide)

theorem Spells.normalHead_alike (h : Spells codes v c) {parent : String}
    {inherited : Option Address} (hcontext : SameContext parent inherited) :
    Alike (fun f p => rowOf codes f = .ok p.row ∧ f.storageAddress = addressText p.storage)
      (normalHead parent v) (c.place inherited) := by
  have hok : ∀ {storage : Address}, storageOf c.kind.name parent (addressText c.sender)
      (addressText c.target) = .ok (addressText storage) →
      normalHead parent v = .ok (normalCall v c (addressText storage)) :=
    fun hstorage => h.normalHead_eq_ok.mpr ⟨_, hstorage, rfl⟩
  unfold PlainCall.place
  cases hkind : c.kind.delegates with
  | false =>
    have hstorage : storageOf c.kind.name parent (addressText c.sender) (addressText c.target) =
        .ok (addressText c.target) := by
      revert hkind
      cases c.kind <;> intro hkind <;> first | rfl | cases hkind
    rw [hok hstorage]
    exact alike_ok ⟨h.rowOf_normalCall _, rfl⟩
  | true =>
    have hdelegate : isDelegate c.kind.name = true := by
      revert hkind
      cases c.kind <;> intro hkind <;> first | rfl | cases hkind
    cases inherited with
    | none =>
      have hparent : parent = "" := hcontext
      have hrefused : ∀ frame, normalHead parent v ≠ .ok frame := by
        intro frame hframe
        obtain ⟨storage, hstorage, -⟩ := h.normalHead_eq_ok.mp hframe
        rw [storageOf, if_pos hdelegate, if_pos hparent] at hstorage
        cases hstorage
      cases hhead : normalHead parent v with
      | error e => exact alike_error _ _
      | ok frame => exact absurd hhead (hrefused frame)
    | some storage =>
      have hparent : parent = addressText storage := hcontext
      have hstorage : storageOf c.kind.name parent (addressText c.sender)
          (addressText c.target) = .ok (addressText storage) := by
        rw [storageOf, if_pos hdelegate, if_neg (hparent ▸ addressText_ne_empty storage), hparent]
      rw [hok hstorage]
      exact alike_ok ⟨h.rowOf_normalCall _, rfl⟩

end Signer

theorem rowsOf_of_spells {calls : CallObject} (h : Rose.Rel (Spells codes) calls t)
    (hu : placed t = .ok u) :
    ∃ n, Rose.annotateM NormalFrame.storageAddress normalHead "" calls = .ok n ∧
      rowsOf codes n = .ok (u.map Placed.row) := by
  have halike : Alike (Rose.Rel fun f p => rowOf codes f = .ok p.row ∧
      f.storageAddress = addressText p.storage)
      (Rose.annotateM NormalFrame.storageAddress normalHead "" calls) (placed t) := by
    refine Rose.annotateM_alike (C := SameContext) ?_ ?_ rfl h
    · intro parent inherited v c hcontext hspells
      exact hspells.normalHead_alike hcontext
    · intro f p hfp
      exact hfp.2
  rw [hu] at halike
  rcases halike with ⟨n, u', hn, hu', hrel⟩ | ⟨e, e', -, herror⟩
  · obtain rfl := Except.ok.inj hu'
    refine ⟨n, hn, Rose.annotateM_of_rel (Rose.rel_map_right (hrel.imp ?_))⟩
    intro f p hfp
    exact hfp.1
  · cases herror

/-! ## The Reth node -/

/-- A frame of the Reth node reports a call. For an account that does not exist the
lookup gives the zero hash, which stands for the hash of no code. -/
structure Reports (code : Address → Except String Hash) (f : Reth.Frame) (c : PlainCall) :
    Prop where
  typ : f.typ = c.kind.name
  sender : f.fromAddr = c.sender
  target : f.toAddr = some c.target
  value : f.value.getD 0 = c.value
  input : f.input = c.input
  failed : f.error.isSome = c.failed
  code : ∃ hash, code c.target = .ok hash ∧ Reth.writtenCode hash = c.code

theorem Reports.rowOf_alike {f : Reth.Frame} {c : PlainCall} (h : Reports code f c)
    (inherited : Option Address) :
    Alike (fun row p => row = p.row) (Reth.rowOf code inherited f) (c.place inherited) := by
  obtain ⟨hash, hcode, hwritten⟩ := h.code
  have hkind : Reth.callKind f.typ = .ok (UInt8.ofNat c.kind.number) := by
    rw [h.typ]
    cases c.kind <;> rfl
  have hdelegate : (UInt8.ofNat c.kind.number = 3 ∨ UInt8.ofNat c.kind.number = 4) ↔
      c.kind.delegates = true := by
    cases c.kind <;> decide
  unfold Reth.rowOf PlainCall.place
  rw [hkind, h.target]
  show Alike _ (Reth.storageOf _ inherited c.target >>= _) _
  unfold Reth.storageOf
  rw [hcode]
  by_cases hd : c.kind.delegates = true
  · rw [if_pos (hdelegate.mpr hd), if_pos hd]
    cases inherited with
    | none => exact alike_error _ _
    | some storage =>
      refine alike_ok ?_
      simp only [Placed.row, h.sender, h.value, h.input, h.failed, hwritten]
  · rw [if_neg (fun hor => hd (hdelegate.mp hor)), if_neg hd]
    refine alike_ok ?_
    simp only [Placed.row, h.sender, h.value, h.input, h.failed, hwritten]

theorem rowsOf_of_reports (h : Rose.Rel (Reports code) frame t) (hu : placed t = .ok u) :
    Reth.rowsOf code frame = .ok (u.map Placed.row) := by
  have halike : Alike (Rose.Rel fun row p => row = Placed.row p) (Reth.rowsOf code frame)
      (placed t) := by
    refine Rose.annotateM_alike (C := fun a b => a = b) ?_ ?_ rfl h
    · rintro inherited _ f c rfl hreports
      exact hreports.rowOf_alike inherited
    · rintro row p rfl
      rfl
  rw [hu] at halike
  rcases halike with ⟨u', u₁, hu', hu₁, hrel⟩ | ⟨e, e', -, herror⟩
  · obtain rfl := Except.ok.inj hu₁
    rw [hu', Rose.eq_map_of_rel hrel]
  · cases herror

/-! ## The Besu plugin -/

theorem Placed.row_record (parent : Option Nat) (p : Placed) : (p.record parent).row = p.row := rfl

theorem Placed.kind_record (parent : Option Nat) (p : Placed) :
    1 ≤ (p.record parent).kind ∧ (p.record parent).kind ≤ 4 := by
  show 1 ≤ (p.call.kind.number : Int) ∧ (p.call.kind.number : Int) ≤ 4
  cases p.call.kind <;> decide

theorem Placed.parentNumber_record {parent : Option Nat} (h : ∀ n, parent = some n → n < 2 ^ 32)
    (p : Placed) : (p.record parent).parentNumber = parentNumber parent := by
  cases parent with
  | none => rfl
  | some n =>
    have hlt := h n rfl
    show ((if (n : Int) = -1 then 0xffffffff else (n : Int)) % 2 ^ 32).toNat = n
    rw [if_neg (by omega)]
    omega

theorem callBytes_records :
    Besu.callBytes (records u) = .ok bytes ↔
      u.size ≤ 128 ∧ (treeBytes u).length ≤ 2 ^ 20 ∧ bytes = treeBytes u := by
  have hlen : (records u).length = u.size := by
    rw [records, length_map, Rose.length_listing]
  have hrows : (records u).map Besu.CallRecord.row = (u.map Placed.row).labels := by
    rw [records, map_map, ← Rose.map_snd_listing none 0, Rose.listing_map, map_map]
    rfl
  have hbytes : u.size ≤ 128 → callHeader u.size ++
      (records u).flatMap (fun r => r.row.bytes r.parentNumber) = treeBytes u := by
    intro hsize
    rw [treeBytes, encoding, Rose.size_map, Rose.listing_map, rowBytes, records,
      flatMap_map, flatMap_map]
    congr 1
    apply flatMap_congr
    rintro ⟨parent, p⟩ hentry
    have hparent : ∀ n, parent = some n → n < 2 ^ 32 := by
      rintro n rfl
      rcases Rose.parent_of_mem_listing hentry with hnone | ⟨m, hm, hlt⟩
      · cases hnone
      · obtain rfl := Option.some.inj hm
        omega
    show (p.record parent).row.bytes (p.record parent).parentNumber =
      p.row.bytes (parentNumber parent)
    rw [p.parentNumber_record hparent, p.row_record]
  rw [Besu.callBytes_eq_ok, hrows, hlen, length_treeBytes]
  constructor
  · rintro ⟨-, hsize, -, hfits, rfl⟩
    exact ⟨hsize, hfits, hbytes hsize⟩
  · rintro ⟨hsize, hfits, rfl⟩
    refine ⟨?_, hsize, ?_, hfits, ?_⟩
    · intro hempty
      rw [hempty, length_nil] at hlen
      obtain ⟨p, us⟩ := u
      rw [Rose.size] at hlen
      omega
    · intro r hr
      obtain ⟨entry, -, rfl⟩ := mem_map.mp hr
      exact entry.2.kind_record entry.1
    · exact (hbytes hsize).symm

/-! ## Agreement -/

def Refuses {α : Type} (x : Except String α) : Prop := ∃ text, x = .error text

theorem refuses_of_forall {α : Type} {x : Except String α} (h : ∀ a, x ≠ .ok a) : Refuses x := by
  cases x with
  | error text => exact ⟨text, rfl⟩
  | ok a => exact absurd rfl (h a)

/-- Three encoders accept together, with the same bytes, or refuse together. -/
structure Together (fits : Prop) (bytes : List UInt8) (x y z : Except String (List UInt8)) :
    Prop where
  accept : fits → x = .ok bytes ∧ y = .ok bytes ∧ z = .ok bytes
  refuse : ¬ fits → Refuses x ∧ Refuses y ∧ Refuses z

theorem together_of_iff {fits : Prop} {x y z : Except String (List UInt8)}
    (hx : ∀ {b}, x = .ok b ↔ fits ∧ b = bytes) (hy : ∀ {b}, y = .ok b ↔ fits ∧ b = bytes)
    (hz : ∀ {b}, z = .ok b ↔ fits ∧ b = bytes) : Together fits bytes x y z where
  accept := fun h => ⟨hx.mpr ⟨h, rfl⟩, hy.mpr ⟨h, rfl⟩, hz.mpr ⟨h, rfl⟩⟩
  refuse := fun h => ⟨refuses_of_forall fun _ hb => h (hx.mp hb).1,
    refuses_of_forall fun _ hb => h (hy.mp hb).1, refuses_of_forall fun _ hb => h (hz.mp hb).1⟩

theorem together_of_placed (hu : placed t = .ok u) {calls : Json}
    (hcalls : Rose.Rel (Spells codes) (callObject calls) t)
    (hframe : Rose.Rel (Reports code) frame t) :
    Together (u.size ≤ 128 ∧ (treeBytes u).length ≤ 2 ^ 20) (treeBytes u) (callBytes codes calls)
      (Reth.callBytes code frame) (Besu.callBytes (records u)) := by
  obtain ⟨n, hn, hrows⟩ := rowsOf_of_spells hcalls hu
  have hreth := rowsOf_of_reports hframe hu
  apply together_of_iff
  · intro b
    simp only [callBytes_eq_ok, exists_and_left, hn, hrows, Except.ok.injEq, exists_eq_left',
      Rose.size_map, length_treeBytes, and_assoc]
    rfl
  · intro b
    simp only [Reth.callBytes_eq_ok, hreth, Except.ok.injEq, exists_eq_left', Rose.size_map,
      length_treeBytes, and_assoc]
    rfl
  · intro b
    rw [callBytes_records, and_assoc]

/-! ## Refusals -/

/-- What every encoder refuses in a tree: a type that is not one of the four, or more
than 128 frames. -/
def Unsupported {α : Type} (type : α → String) (t : Rose α) : Prop :=
  (∃ frame ∈ t.labels, type frame ∉ CallKind.names) ∨ t.size > 128

/-- The root would run in the storage of a caller it does not have. -/
def RootDelegates {α : Type} (type : α → String) (t : Rose α) : Prop :=
  type t.label = "DELEGATECALL" ∨ type t.label = "CALLCODE"

theorem mem_names_of_kindByte {type : String} (h : kindByte type ≠ 0) : type ∈ CallKind.names := by
  unfold kindByte at h
  simp only [CallKind.names, mem_cons, not_mem_nil, or_false]
  split_ifs at h with h₁ h₂ h₃ h₄
  · exact .inl h₁
  · exact .inr (.inl h₂)
  · exact .inr (.inr (.inl h₃))
  · exact .inr (.inr (.inr h₄))
  · exact absurd rfl h

theorem type_of_normalHead {parent : String} {v : Members} {frame : NormalFrame}
    (h : normalHead parent v = .ok frame) : frame.type = str (member v "type") ∧
      storageOf frame.type parent frame.fromAddr frame.toAddr = .ok frame.storageAddress := by
  unfold normalHead normalFrame at h
  simp only [↓onlyIf_error_bind_eq_ok, Phase.bind_eq_ok, Phase.pure_eq_ok] at h
  obtain ⟨-, value, -, -, storage, hstorage, rfl⟩ := h
  exact ⟨rfl, hstorage⟩

theorem supported_of_callBytes {calls : Json} (h : callBytes codes calls = .ok bytes) :
    ¬ Unsupported (fun v => str (member v "type")) (callObject calls) ∧
      ¬ RootDelegates (fun v => str (member v "type")) (callObject calls) ∧
      bytes.length ≤ 2 ^ 20 := by
  obtain ⟨n, u, hn, hu, hsize, hfits, rfl⟩ := callBytes_eq_ok.mp h
  have hsizes : u.size = n.size := Rose.size_of_annotateM hu
  have hsizes' := Rose.size_of_annotateM hn
  refine ⟨?_, ?_, ?_⟩
  · rintro (⟨v, hv, htype⟩ | hmany)
    · have hrel : Rose.Rel (fun v f => f.type = str (member v "type")) (callObject calls) n := by
        refine Rose.rel_of_annotateM ?_ hn
        intro parent v f hhead
        exact (type_of_normalHead hhead).1
      obtain ⟨f, hf, htypes⟩ := hrel.exists_of_mem_labels_left hv
      obtain ⟨row, -, hrow⟩ := (rel_of_rowsOf hu).exists_of_mem_labels_left hf
      apply htype
      show str (member v "type") ∈ CallKind.names
      rw [← htypes]
      exact mem_names_of_kindByte (rowOf_eq_ok.mp hrow).1
    · omega
  · intro hroot
    cases hcalls : callObject calls with
    | node v calls =>
      rw [hcalls] at hn hroot
      obtain ⟨f, us, hhead, -, -⟩ := Rose.annotateM_node_eq_ok.mp hn
      obtain ⟨htype, hstorage⟩ := type_of_normalHead hhead
      have hdelegate : isDelegate f.type = true := by
        rw [htype, isDelegate, Bool.or_eq_true, beq_iff_eq, beq_iff_eq]
        exact hroot
      rw [storageOf, if_pos hdelegate, if_pos rfl] at hstorage
      cases hstorage
  · rw [length_encoding (whole_of_rowsOf hn hu)]
    exact hfits

theorem mem_names_of_callKind {typ : String} {kind : UInt8} (h : Reth.callKind typ = .ok kind) :
    typ ∈ CallKind.names ∧ (typ = "DELEGATECALL" ∨ typ = "CALLCODE" → kind = 3 ∨ kind = 4) := by
  unfold Reth.callKind at h
  split_ifs at h with h₁ h₂ h₃ h₄ <;> obtain rfl := Except.ok.inj h
  · subst h₁
    decide
  · subst h₂
    decide
  · subst h₃
    decide
  · subst h₄
    decide

theorem supported_of_reth (h : Reth.callBytes code frame = .ok bytes) :
    ¬ Unsupported Reth.Frame.typ frame ∧ ¬ RootDelegates Reth.Frame.typ frame ∧
      bytes.length ≤ 2 ^ 20 := by
  obtain ⟨u, hu, hsize, hfits, rfl⟩ := (Reth.callBytes_eq_ok code).mp h
  have hsizes : u.size = frame.size := Rose.size_of_annotateM hu
  have hread : ∀ {inherited : Option Address} {f : Reth.Frame} {row : CallRow},
      Reth.rowOf code inherited f = .ok row → ∃ kind toAddr storage,
        Reth.callKind f.typ = .ok kind ∧ Reth.storageOf kind inherited toAddr = .ok storage := by
    intro inherited f row hrow
    unfold Reth.rowOf at hrow
    simp only [Phase.bind_eq_ok] at hrow
    obtain ⟨kind, hkind, toAddr, -, storage, hstorage, -⟩ := hrow
    exact ⟨kind, toAddr, storage, hkind, hstorage⟩
  refine ⟨?_, ?_, ?_⟩
  · rintro (⟨f, hf, htype⟩ | hmany)
    · have hrel : Rose.Rel (fun f (_ : CallRow) => f.typ ∈ CallKind.names) frame u := by
        refine Rose.rel_of_annotateM ?_ hu
        intro inherited f row hrow
        obtain ⟨kind, -, -, hkind, -⟩ := hread hrow
        exact (mem_names_of_callKind hkind).1
      obtain ⟨-, -, hname⟩ := hrel.exists_of_mem_labels_left hf
      exact htype hname
    · omega
  · intro hroot
    cases frame with
    | node f calls =>
      obtain ⟨row, us, hhead, -, -⟩ := Rose.annotateM_node_eq_ok.mp hu
      obtain ⟨kind, toAddr, storage, hkind, hstorage⟩ := hread hhead
      rw [Reth.storageOf, if_pos ((mem_names_of_callKind hkind).2 hroot)] at hstorage
      cases hstorage
  · rw [length_encoding (Reth.whole_of_rowsOf code hu)]
    exact hfits

theorem supported_of_besu {records : List Besu.CallRecord}
    (h : Besu.callBytes records = .ok bytes) :
    (∀ r ∈ records, 1 ≤ r.kind ∧ r.kind ≤ 4) ∧ records.length ≤ 128 ∧ bytes.length ≤ 2 ^ 20 := by
  obtain ⟨-, hsize, hkinds, hfits, rfl⟩ := Besu.callBytes_eq_ok.mp h
  refine ⟨hkinds, hsize, ?_⟩
  have hlen : ∀ l : List Besu.CallRecord, (l.flatMap fun r => r.row.bytes r.parentNumber).length =
      rowsSize (l.map Besu.CallRecord.row) := by
    intro l
    rw [length_flatMap, rowsSize, map_map]
    exact congrArg List.sum (map_congr_left fun r _ => r.row.length_bytes r.whole_row _)
  rw [length_append, length_callHeader, hlen]
  exact hfits

/-- The three calls fingerprints. A tree of the four kinds whose root runs in its own
storage is hashed to the same bytes by all three, or refused by all three. Each of them
refuses another type, more than 128 frames and more than 1 MiB; a root that delegates is
refused by the signer and by the Reth node. -/
theorem calls_fingerprints_agree :
    (∀ t : Rose PlainCall, t.label.kind.delegates = false → ∃ u, placed t = .ok u ∧
      ∀ codes calls code frame, Rose.Rel (Spells codes) (callObject calls) t →
        Rose.Rel (Reports code) frame t →
        Together (u.size ≤ 128 ∧ (treeBytes u).length ≤ 2 ^ 20) (treeBytes u)
          (callBytes codes calls) (Reth.callBytes code frame) (Besu.callBytes (records u))) ∧
    (∀ codes calls, Unsupported (fun v => str (member v "type")) (callObject calls) ∨
      RootDelegates (fun v => str (member v "type")) (callObject calls) →
      Refuses (callBytes codes calls)) ∧
    (∀ code frame, Unsupported Reth.Frame.typ frame ∨ RootDelegates Reth.Frame.typ frame →
      Refuses (Reth.callBytes code frame)) ∧
    (∀ records : List Besu.CallRecord, (∃ r ∈ records, ¬ (1 ≤ r.kind ∧ r.kind ≤ 4)) ∨
      records.length > 128 → Refuses (Besu.callBytes records)) ∧
    (∀ codes calls bytes, callBytes codes calls = .ok bytes → bytes.length ≤ 2 ^ 20) ∧
    (∀ code frame bytes, Reth.callBytes code frame = .ok bytes → bytes.length ≤ 2 ^ 20) ∧
    (∀ records bytes, Besu.callBytes records = .ok bytes → bytes.length ≤ 2 ^ 20) := by
  refine ⟨?_, ?_, ?_, ?_, ?_, ?_, ?_⟩
  · intro t hroot
    obtain ⟨u, hu⟩ := exists_placed hroot
    exact ⟨u, hu, fun codes calls code frame hcalls hframe => together_of_placed hu hcalls hframe⟩
  · intro codes calls hbad
    apply refuses_of_forall
    intro bytes h
    obtain ⟨hsupported, hroot, -⟩ := supported_of_callBytes h
    exact hbad.elim hsupported hroot
  · intro code frame hbad
    apply refuses_of_forall
    intro bytes h
    obtain ⟨hsupported, hroot, -⟩ := supported_of_reth h
    exact hbad.elim hsupported hroot
  · intro records hbad
    apply refuses_of_forall
    intro bytes h
    obtain ⟨hkinds, hsize, -⟩ := supported_of_besu h
    rcases hbad with ⟨r, hr, hkind⟩ | hmany
    · exact hkind (hkinds r hr)
    · omega
  · intro codes calls bytes h
    exact (supported_of_callBytes h).2.2
  · intro code frame bytes h
    exact (supported_of_reth h).2.2
  · intro records bytes h
    exact (supported_of_besu h).2.2

/-- The account whose address ends in `n`. -/
def party (n : UInt8) : Address := block 20 (List.replicate 19 0 ++ [n])

/-- The calls of `deposit`. -/
def depositCalls : Rose PlainCall :=
  .node ⟨.call, party 0xaa, party 0xbb, block 32 [1], 5, false, [0xd0, 0xe3, 0x0d, 0xb0]⟩
    [.node ⟨.delegateCall, party 0xbb, party 0xcc, block 32 [2], 0, false,
      [0xd0, 0xe3, 0x0d, 0xb0]⟩
      [.node ⟨.staticCall, party 0xbb, party 0xdd, block 32 [1], 0, true, []⟩ []]]

def depositFrames : Rose Reth.Frame :=
  .node ⟨"CALL", party 0xaa, some (party 0xbb), some 5, [0xd0, 0xe3, 0x0d, 0xb0], none⟩
    [.node ⟨"DELEGATECALL", party 0xbb, some (party 0xcc), none, [0xd0, 0xe3, 0x0d, 0xb0], none⟩
      [.node ⟨"STATICCALL", party 0xbb, some (party 0xdd), some 0, [], some "reverted"⟩ []]]

def depositCode (address : Address) : Except String Hash :=
  .ok (if address = party 0xcc then block 32 [2] else block 32 [1])

theorem deposit_spells : Rose.Rel (Spells depositCodes) (callObject deposit) depositCalls := by
  have hvalue : "0x05" = "0x" ++ String.ofList ['0', '5'] := by decide +kernel
  refine ⟨⟨rfl, ⟨_, rfl, ?_⟩, ⟨_, rfl, ?_⟩, .inr ⟨['0', '5'], congrArg Json.str hvalue, ?_, ?_⟩,
      .inr ⟨_, rfl, ?_⟩, rfl, ?_⟩,
    ⟨⟨rfl, ⟨_, rfl, ?_⟩, ⟨_, rfl, ?_⟩, .inl ⟨rfl, rfl⟩, .inr ⟨_, rfl, ?_⟩, rfl, ?_⟩,
      ⟨⟨rfl, ⟨_, rfl, ?_⟩, ⟨_, rfl, ?_⟩, .inl ⟨rfl, rfl⟩, .inl ⟨rfl, rfl⟩, rfl, ?_⟩, trivial⟩,
      trivial⟩, trivial⟩
  all_goals decide +kernel

theorem deposit_reports : Rose.Rel (Reports depositCode) depositFrames depositCalls := by
  refine ⟨⟨rfl, rfl, rfl, rfl, rfl, rfl, _, rfl, ?_⟩, ⟨⟨rfl, rfl, rfl, rfl, rfl, rfl, _, rfl, ?_⟩,
    ⟨⟨rfl, rfl, rfl, rfl, rfl, rfl, _, rfl, ?_⟩, trivial⟩, trivial⟩, trivial⟩
  all_goals decide +kernel

/-- Three nested calls are hashed alike; with a creation in their place all three refuse. -/
theorem deposit_fingerprints :
    (∃ u bytes, placed depositCalls = .ok u ∧ callBytes depositCodes deposit = .ok bytes ∧
      Reth.callBytes depositCode depositFrames = .ok bytes ∧
      Besu.callBytes (records u) = .ok bytes ∧ bytes.length ≤ 2 ^ 20) ∧
    Refuses (callBytes depositCodes (.obj [("type", .str "CREATE"), ("calls", .arr [deposit])])) ∧
    Refuses (Reth.callBytes depositCode
      (.node ⟨"CREATE", party 0xaa, none, none, [], none⟩ [depositFrames])) ∧
    Refuses (Besu.callBytes [⟨-1, 5, party 0xaa, party 0xbb, party 0xbb, block 32 [1], 0, false,
      []⟩]) := by
  obtain ⟨hagree, hgo, hreth, hbesu, hlength, -, -⟩ := calls_fingerprints_agree
  obtain ⟨u, hu, htogether⟩ := hagree depositCalls rfl
  obtain rfl : u = _ := Except.ok.inj (hu.symm.trans rfl)
  obtain ⟨hsigner, hnode, hplugin⟩ := (htogether depositCodes deposit depositCode depositFrames
    deposit_spells deposit_reports).accept (by decide +kernel)
  refine ⟨⟨_, _, hu, hsigner, hnode, hplugin, hlength _ _ _ hsigner⟩, ?_, ?_, ?_⟩
  · exact hgo _ _ (.inl (.inl ⟨_, .head _, by decide +kernel⟩))
  · exact hreth _ _ (.inl (.inl ⟨_, .head _, by decide⟩))
  · exact hbesu _ (.inl ⟨_, .head _, by decide⟩)

/-- Where the three differ. A root DELEGATECALL: the plugin hashes its record, and the
signer and the Reth node refuse the same frame. A call of an account with the zero code
hash: the Reth node does not write that hash. -/
theorem calls_fingerprints_differ :
    (∃ bytes, Besu.callBytes [⟨-1, 3, block 20 [1], block 20 [2], block 20 [2], block 32 [3], 0,
      false, []⟩] = .ok bytes) ∧
    Refuses (callBytes (fun _ => some (block 32 [3])) (.obj [("type", .str "DELEGATECALL"),
      ("from", .str (addressText (block 20 [1]))), ("to", .str (addressText (block 20 [2])))])) ∧
    Refuses (Reth.callBytes (fun _ => .ok (block 32 [3])) (.node ⟨"DELEGATECALL", block 20 [1],
      some (block 20 [2]), none, [], none⟩ [])) ∧
    Besu.callBytes [⟨-1, 1, block 20 [1], block 20 [2], block 20 [2], Reth.zeroHash, 0, false,
        []⟩] ≠
      Reth.callBytes (fun _ => .ok Reth.zeroHash)
        (.node ⟨"CALL", block 20 [1], some (block 20 [2]), none, [], none⟩ []) := by
  refine ⟨⟨_, rfl⟩, ⟨"root delegate", ?_⟩, ⟨"root delegate", ?_⟩, ?_⟩
  · decide +kernel
  · decide
  · decide

end PrivacySuite.NodeApproval
