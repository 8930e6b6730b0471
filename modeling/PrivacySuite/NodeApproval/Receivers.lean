import PrivacySuite.Besu.ApprovalRuns
import PrivacySuite.NodeApproval.BatchCodec
import PrivacySuite.Reth.ApprovalRuns

/-!
# What the two stores make of one delivery

A batch that a store accepts should leave a usable approval for each transaction it names,
and two stores that have received the same approvals should hold the same one. Both hold
where the replacement rule is told everything it needs: the Reth store ranks an expired
approval like a valid one, and neither rank covers hash mode and expiry.
-/

namespace PrivacySuite.NodeApproval

open Codec Data List

/-! ## Accepted and usable -/

section Usable

open Reth.Approvals

theorem usable_eq (s : State) (hash : Hash) (nowMs : UInt64) :
    Store.usable s hash nowMs =
      (s.approvalOf hash).filter fun a => decide (nowMs < a.expiresAt) := by
  simp only [Store.usable, Reth.usable, State.approvalOf]
  cases s.entry hash with
  | none => rfl
  | some e =>
    show (e.approval.bind fun a => if nowMs < a.expiresAt then some a else none) = _
    cases happroval : e.approval with
    | none => simp [happroval]
    | some a => simp [happroval, Option.filter_some]

/-- The approval stored under a hash has expired and outranks what the batch has for it. -/
def KeptExpired (s : State) (batch : List Reth.Approval) (nowMs : UInt64) (hash : Hash) : Prop :=
  ∃ old, s.approvalOf hash = some old ∧ old.expiresAt ≤ nowMs ∧
    ∀ a ∈ batch, a.txHash = hash → rank a ≤ rank old

/-- Behind an accepted batch of valid approvals, a transaction it names has a usable
approval unless it keeps an expired one. -/
theorem reth_usable_iff (st : Store) (ops : List Op) {batch : List Reth.Approval} {now : Now}
    (hlive : ∀ a ∈ batch, now.ms < a.expiresAt)
    (hok : (st.putBatch (st.run ops) batch now).1 = .ok ()) {a : Reth.Approval} (ha : a ∈ batch) :
    (∃ b, Store.usable (st.putBatch (st.run ops) batch now).2 a.txHash now.ms = some b) ↔
      ¬ KeptExpired (st.run ops) batch now.ms a.txHash := by
  have hs := indexed_run st ops
  have hnamed : a.txHash ∉ st.evicted (st.run ops) batch now := fun hmem =>
    (mem_evicted st hs hmem).1 (mem_map_of_mem ha)
  have hafter := approvalOf_putBatch st hs hok a.txHash
  rw [if_neg hnamed] at hafter
  have hoffered : a ∈ batch.filter fun b => b.txHash = a.txHash :=
    mem_filter.mpr ⟨ha, by simp⟩
  have hsome : ((batch.filter fun b => b.txHash = a.txHash).foldl (keepBest rank)
      ((st.run ops).approvalOf a.txHash)).isSome = true :=
    foldl_keepBest_isSome (.inr (ne_nil_of_mem hoffered))
  obtain ⟨b, hb⟩ := Option.isSome_iff_exists.mp hsome
  obtain ⟨hfrom, hmax, hheld⟩ := foldl_keepBest hb
  rw [usable_eq, hafter, hb, Option.filter_some]
  constructor
  · rintro ⟨c, hc⟩ ⟨old, hold, hexpired, houtranks⟩
    split at hc
    · rename_i hvalid
      have hvalid := of_decide_eq_true hvalid
      have hne : b ≠ old := by
        rintro rfl
        exact absurd hexpired (UInt64.not_le.mpr hvalid)
      have hrank := (hheld old hold).resolve_left hne
      rcases hfrom with hmem | hsame
      · obtain ⟨hmem, hhash⟩ := mem_filter.mp hmem
        exact absurd (houtranks b hmem (of_decide_eq_true hhash)) (not_le.mpr hrank)
      · exact hne (Option.some.inj (hsame.symm.trans hold))
    · cases hc
  · intro hkept
    have hvalid : now.ms < b.expiresAt := by
      rcases hfrom with hmem | hsame
      · exact hlive b (mem_of_mem_filter hmem)
      · by_contra hexpired
        refine hkept ⟨b, hsame, UInt64.not_lt.mp hexpired, ?_⟩
        intro c hc hhash
        exact hmax c (mem_filter.mpr ⟨hc, by simpa using hhash⟩)
    exact ⟨b, if_pos (decide_eq_true hvalid)⟩

end Usable

section BesuUsable

open Besu.ApprovalStore

theorem besu_usable (st : Store) (ops : List Op) {now : Int64} {keyId : List Char}
    {issuedAt expiresAt : Int64} {approvals : List Besu.Approval} (hlive : now < expiresAt)
    (hok : (st.putAll (st.run ops) now keyId issuedAt expiresAt approvals).1 = true)
    {a : Besu.Approval} (ha : a ∈ approvals) :
    ∃ x, get (st.putAll (st.run ops) now keyId issuedAt expiresAt approvals).2 a.txHash = some x ∧
      x.usableAt now = true := by
  have hnamed : a.txHash ∈ (offers keyId issuedAt expiresAt approvals).map Stored.tx :=
    (mem_offers_tx keyId issuedAt expiresAt approvals).mpr (mem_map_of_mem ha)
  obtain ⟨x, hx⟩ : ∃ x, offerOf (offers keyId issuedAt expiresAt approvals) a.txHash = some x := by
    rw [← Option.ne_none_iff_exists', Ne, offerOf_eq_none, not_not]
    exact hnamed
  obtain ⟨b, -, hxb⟩ := offers_issuedAt hx
  have hxlive : x.usableAt now = true := by
    rw [hxb]
    exact decide_eq_true hlive
  obtain ⟨hs, hcap⟩ := consistent_run st ops
  have hget := get_putAll hs.indexed hcap hok hx
  have hsome : (keepBest Stored.rank ((get (st.run ops) a.txHash).filter fun old =>
      old.usableAt now) x).isSome = true := keepBest_isSome _ x
  obtain ⟨y, hy⟩ := Option.isSome_iff_exists.mp hsome
  refine ⟨y, hget.trans hy, ?_⟩
  rcases (keepBest_eq_some hy).1 with rfl | hheld
  · exact hxlive
  · rw [Option.filter_eq_some_iff] at hheld
    exact hheld.2

end BesuUsable

/-- An accepted batch of valid approvals leaves a usable approval for each transaction it
names: in the Besu store always, in the Reth store exactly when no transaction it names
holds an expired approval that outranks all the batch has for it. -/
theorem accepted_usable_iff (st : Reth.Approvals.Store) (ops : List Reth.Approvals.Op)
    (batch : List Reth.Approval) (now : Reth.Approvals.Now) :
    ((∀ a ∈ batch, now.ms < a.expiresAt) → (st.putBatch (st.run ops) batch now).1 = .ok () →
      ((∀ a ∈ batch, ∃ b, Reth.Approvals.Store.usable (st.putBatch (st.run ops) batch now).2
          a.txHash now.ms = some b) ↔
        ∀ a ∈ batch, ¬ KeptExpired (st.run ops) batch now.ms a.txHash)) ∧
      ∀ (st : Besu.ApprovalStore.Store) (ops : List Besu.ApprovalStore.Op) (now : Int64)
        (keyId : List Char) (issuedAt expiresAt : Int64) (approvals : List Besu.Approval),
        now < expiresAt →
        (st.putAll (st.run ops) now keyId issuedAt expiresAt approvals).1 = true →
          ∀ a ∈ approvals, ∃ x, Besu.ApprovalStore.get
            (st.putAll (st.run ops) now keyId issuedAt expiresAt approvals).2 a.txHash = some x ∧
              x.usableAt now = true := by
  constructor
  · intro hlive hok
    exact forall₂_congr fun a ha => reth_usable_iff st ops hlive hok ha
  · intro st ops now keyId issuedAt expiresAt approvals hlive hok a ha
    exact besu_usable st ops hlive hok ha

/-- Two full stores. The batch of the first names two new transactions, one that is pooled and
one whose approval has expired; that of the second a new one and one that is pooled. -/
theorem accepted_usable_full :
    (let st : Reth.Approvals.Store := ⟨Reth.Approvals.fromMillis 5000, 7, 0⟩
      let s := st.run Reth.Approvals.fullHistory
      let batch := [8, 6, 2, 9].map fun tx => Reth.Approvals.sampleApproval tx 29000 95000
      ∀ a ∈ batch, ∃ b, Reth.Approvals.Store.usable
        (st.putBatch s batch ⟨Reth.Approvals.fromMillis 27500, 30000⟩).2 a.txHash 30000 = some b) ∧
    (let st : Besu.ApprovalStore.Store := ⟨2, 1000⟩
      let s := st.run [.putAll 1000 ['k'] 900 2000 [Besu.ApprovalStore.sampleApproval 1],
        .putAll 1200 ['k'] 1100 9000 [Besu.ApprovalStore.sampleApproval 2],
        .pooled (repeatByte 2) 1300]
      let batch := [Besu.ApprovalStore.sampleApproval 3, Besu.ApprovalStore.sampleApproval 2]
      ∀ a ∈ batch, ∃ x, Besu.ApprovalStore.get (st.putAll s 2500 ['k'] 2400 6000 batch).2
        a.txHash = some x ∧ x.usableAt 2500 = true) := by
  refine ⟨?_, (accepted_usable_iff ⟨0, 0, 0⟩ [] [] ⟨0, 0⟩).2 ⟨2, 1000⟩ _ 2500 ['k'] 2400 6000 _
    (by decide) (by decide +kernel)⟩
  intro st s batch
  have houtrank : ∀ a ∈ batch, (s.approvalOf a.txHash).all
      (fun old => decide (Reth.Approvals.rank old < Reth.Approvals.rank a)) = true := by
    decide +kernel
  refine ((accepted_usable_iff st Reth.Approvals.fullHistory batch
    ⟨Reth.Approvals.fromMillis 27500, 30000⟩).1 (by decide +kernel) (by decide +kernel)).mpr ?_
  rintro a ha ⟨old, hold, -, hkept⟩
  have hless := houtrank a ha
  rw [hold, Option.all_some, decide_eq_true_iff] at hless
  exact absurd (hkept a ha rfl) (not_le.mpr hless)

/-- The Reth store holds an approval that has expired and was issued later: it accepts a
valid one and keeps the expired one. -/
theorem accepted_but_expired :
    let st : Reth.Approvals.Store := ⟨0, 10, 0⟩
    let s := st.run [.putBatch [Reth.Approvals.sampleApproval 1 1000 2000] ⟨0, 1500⟩]
    let answer := st.putBatch s [Reth.Approvals.sampleApproval 1 900 5000] ⟨0, 3000⟩
    (3000 : UInt64) < (Reth.Approvals.sampleApproval 1 900 5000).expiresAt ∧
      answer.1 = .ok () ∧
      Reth.Approvals.Store.usable answer.2 (repeatByte 1) 3000 = none :=
  ⟨by decide, rfl, rfl⟩

/-! ## One collection, every delivery -/

/-- An approval with what its batch says of it: only what a batch may carry can be built. -/
structure Verified where
  keyId : List UInt8
  issuedAt : UInt64
  expiresAt : UInt64
  item : Item
  keyId_length : 1 ≤ keyId.length ∧ keyId.length ≤ 64
  keyId_bytes : keyId.all keyByte = true
  issued_before : issuedAt < expiresAt

def SignedBatch.verified (b : SignedBatch) : List Verified :=
  b.items.map fun item =>
    ⟨b.keyId, b.issuedAt, b.expiresAt, item, b.keyId_length, b.keyId_bytes, b.issued_before⟩

def offered {T : Type} (deliveries : List (SignedBatch × T)) : List Verified :=
  deliveries.flatMap fun d => d.1.verified

/-- What the gate compares an execution with, and until when. -/
@[ext] structure Kept where
  fingerprint : Hash
  hashMode : Int
  expiresAt : UInt64
  deriving DecidableEq

namespace Verified

variable (v : Verified)

def rank : Rank := rankOf v.issuedAt v.keyId v.item.fingerprint

def kept : Kept := ⟨v.item.fingerprint, (v.item.mode.code.toNat : Int), v.expiresAt⟩

def reth : Reth.Approval :=
  ⟨v.item.mode.code, v.item.chainId, v.item.txHash, v.item.fingerprint, v.keyId, v.issuedAt,
    v.expiresAt⟩

def besu : Besu.ApprovalStore.Stored :=
  ⟨Besu.readRecord v.item.bytes, Besu.asciiText v.keyId, v.issuedAt.toInt64, v.expiresAt.toInt64⟩

end Verified

def rethKept (a : Reth.Approval) : Kept := ⟨a.fingerprint, (a.hashMode.toNat : Int), a.expiresAt⟩

def besuKept (x : Besu.ApprovalStore.Stored) : Kept :=
  ⟨x.approval.fingerprint, x.approval.hashMode, x.expiresAt.toUInt64⟩

/-- Batches are put into the Reth store one after the other, each at its time; `none` when
one is refused. -/
def rethReceive (st : Reth.Approvals.Store) (s : Reth.Approvals.State) :
    List (SignedBatch × Reth.Approvals.Now) → Option Reth.Approvals.State
  | [] => some s
  | (b, now) :: rest =>
      match st.putBatch s (Reth.Envelope.ofBody b.bytes).approvals now with
      | (.ok (), s') => rethReceive st s' rest
      | (.error _, _) => none

/-- Batches are put into the Besu store one after the other, each at its time; `none` when
one is refused. -/
def besuReceive (st : Besu.ApprovalStore.Store) (s : Besu.ApprovalStore.State) :
    List (SignedBatch × Int64) → Option Besu.ApprovalStore.State
  | [] => some s
  | (b, now) :: rest =>
      let d := Besu.Decoded.ofBody b.bytes
      match st.putAll s now d.keyId d.issuedAt d.expiresAt d.approvals with
      | (true, s') => besuReceive st s' rest
      | (false, _) => none

/-- A finite collection of approvals for one transaction. -/
structure Collection where
  tx : Hash
  approvals : List Verified
  one_tx : ∀ v ∈ approvals, v.item.txHash = tx

namespace Collection

variable (c : Collection)

/-- The batches delivered carry the approvals of the collection, in any order and as often as
they like, and no others. -/
def Carried {T : Type} (deliveries : List (SignedBatch × T)) : Prop :=
  ∀ v, v ∈ offered deliveries ↔ v ∈ c.approvals

/-- What a store may hold for the transaction of a collection once it has received the
collection: it held no approval for it before, it accepted every batch, and all approvals
were valid whenever a batch came. -/
inductive Leaves : Option Kept → Prop
  | reth (st : Reth.Approvals.Store) (ops : List Reth.Approvals.Op)
      (deliveries : List (SignedBatch × Reth.Approvals.Now)) (s : Reth.Approvals.State)
      (hfree : (st.run ops).approvalOf c.tx = none)
      (hcarried : c.Carried deliveries)
      (hlive : ∀ d ∈ deliveries, ∀ v ∈ c.approvals, d.2.ms < v.expiresAt)
      (haccepted : rethReceive st (st.run ops) deliveries = some s) :
      Leaves ((s.approvalOf c.tx).map rethKept)
  | besu (st : Besu.ApprovalStore.Store) (ops : List Besu.ApprovalStore.Op)
      (deliveries : List (SignedBatch × Int64)) (s : Besu.ApprovalStore.State)
      (hfree : Besu.ApprovalStore.get (st.run ops) c.tx = none)
      (hcarried : c.Carried deliveries)
      (hlive : ∀ d ∈ deliveries, ∀ v ∈ c.approvals, d.2 < v.expiresAt.toInt64)
      (haccepted : besuReceive st (st.run ops) deliveries = some s) :
      Leaves ((Besu.ApprovalStore.get s c.tx).map besuKept)

/-- No approval of the collection outranks this one. -/
def Greatest (v : Verified) : Prop := v ∈ c.approvals ∧ ∀ w ∈ c.approvals, w.rank ≤ v.rank

end Collection

/-! ### What an approval is read as -/

section Reading

open Besu

theorem rethApprovals (b : SignedBatch) :
    (Reth.Envelope.ofBody b.bytes).approvals = b.verified.map Verified.reth := by
  rw [Reth.Envelope.approvals_ofBody, SignedBatch.verified, map_map]
  rfl

theorem besuApprovals (b : SignedBatch) :
    let d := Decoded.ofBody b.bytes
    (d.approvals.map fun a => (⟨a, d.keyId, d.issuedAt, d.expiresAt⟩ : ApprovalStore.Stored)) =
      b.verified.map Verified.besu := by
  simp only [Decoded.ofBody, SignedBatch.verified, b.recordParts_bytes, b.keyPart_bytes,
    b.issuedPart_bytes, b.expiresPart_bytes, map_map]
  rfl

theorem getBytes_asciiText {id : List UInt8} (h : id.all keyByte = true) :
    ApprovalStore.getBytes (asciiText id) = id := by
  rw [asciiText, ApprovalStore.getBytes, map_map]
  conv_rhs => rw [← map_id id]
  apply map_congr_left
  intro b hb
  have hascii := keyByte_ascii (all_eq_true.mp h b hb)
  have hchar : (asciiChar b).toNat = b.toNat := by
    rw [asciiChar, if_pos hascii, Char.toNat_ofNat, if_pos (.inl (by omega))]
  simp only [Function.comp_apply, hchar, if_pos hascii, UInt8.ofNat_toNat, id_eq]

theorem fingerprint_readRecord (item : Item) :
    (readRecord item.bytes).fingerprint = item.fingerprint :=
  congrArg (fun grant => grant.2.2.2) (grant_readRecord item)

theorem rank_besu (v : Verified) : v.besu.rank = v.rank := by
  simp only [ApprovalStore.Stored.rank, Verified.besu, Verified.rank,
    getBytes_asciiText v.keyId_bytes,
    fingerprint_readRecord, UInt64.toUInt64_toInt64]

theorem kept_besu (v : Verified) : besuKept v.besu = v.kept := by
  have hmode : (readRecord v.item.bytes).hashMode = (v.item.mode.code.toNat : Int) :=
    congrArg (fun grant => grant.1) (grant_readRecord v.item)
  simp only [besuKept, Verified.besu, Verified.kept, fingerprint_readRecord, hmode,
    UInt64.toUInt64_toInt64]

theorem tx_besu (v : Verified) : v.besu.tx = v.item.txHash :=
  congrArg (fun grant => grant.2.2.1) (grant_readRecord v.item)

end Reading

theorem SignedBatch.verified_ne_nil (b : SignedBatch) : b.verified ≠ [] := by
  intro h
  have hlength := b.items_length.1
  rw [SignedBatch.verified, map_eq_nil_iff] at h
  rw [h] at hlength
  exact absurd hlength (by decide)

/-! ### Deliveries -/

variable {c : Collection} {v : Verified} {vs : List Verified}

theorem Collection.Carried.mem {T : Type} {deliveries : List (SignedBatch × T)}
    (h : c.Carried deliveries) {d : SignedBatch × T} (hd : d ∈ deliveries) (hv : v ∈ d.1.verified) :
    v ∈ c.approvals :=
  (h v).mp (mem_flatMap.mpr ⟨d, hd, hv⟩)

section Deliveries

variable {tx : Hash}

variable {o : Option Verified}

open Reth.Approvals in
theorem approvalOf_rethReceive {st : Store}
    {deliveries : List (SignedBatch × Now)} {s s' : State}
    (hs : Indexed s) (ho : s.approvalOf tx = o.map Verified.reth)
    (htx : ∀ d ∈ deliveries, ∀ v ∈ d.1.verified, v.item.txHash = tx)
    (haccepted : rethReceive st s deliveries = some s') :
    s'.approvalOf tx = ((offered deliveries).foldl (keepBest Verified.rank) o).map
      Verified.reth := by
  induction deliveries generalizing s o with
  | nil =>
    obtain rfl := Option.some.inj haccepted
    exact ho
  | cons d deliveries ih =>
    obtain ⟨b, now⟩ := d
    have hb := htx (b, now) mem_cons_self
    rw [rethReceive, rethApprovals] at haccepted
    split at haccepted
    · rename_i s₁ hput
      obtain ⟨hok, hs₁ : _ = s₁⟩ := Prod.ext_iff.mp hput
      have hindexed : Indexed s₁ := by
        rw [← hs₁]
        exact indexed_apply st hs (.putBatch _ now)
      have hall : (b.verified.map Verified.reth).filter (fun a => a.txHash = tx) =
          b.verified.map Verified.reth := by
        rw [filter_eq_self, forall_mem_map]
        exact fun v hv => decide_eq_true (hb v hv)
      have hnamed : tx ∉ st.evicted s (b.verified.map Verified.reth) now := by
        intro hmem
        apply (mem_evicted st hs hmem).1
        obtain ⟨v, hv⟩ := exists_mem_of_ne_nil _ b.verified_ne_nil
        rw [map_map, mem_map]
        exact ⟨v, hv, hb v hv⟩
      have hstep := approvalOf_putBatch st hs hok tx
      rw [if_neg hnamed, hall, ho, foldl_keepBest_map fun _ => rfl, hs₁] at hstep
      rw [offered, flatMap_cons, foldl_append]
      exact ih hindexed hstep (fun d hd => htx d (mem_cons_of_mem _ hd)) haccepted
    · cases haccepted

open Besu.ApprovalStore in
/-- The Besu store holds the first of the greatest too, as long as nothing offered expires. -/
theorem get_besuReceive {st : Store} {deliveries : List (SignedBatch × Int64)}
    {s s' : State} (hs : Consistent s)
    (hcap : s.entries.entries.length ≤ st.capacity)
    (ho : Besu.ApprovalStore.get s tx = o.map Verified.besu) {approvals : List Verified}
    (hmem : ∀ v, o = some v → v ∈ approvals)
    (hmems : ∀ d ∈ deliveries, ∀ v ∈ d.1.verified, v ∈ approvals)
    (htx : ∀ v ∈ approvals, v.item.txHash = tx)
    (hlive : ∀ d ∈ deliveries, ∀ v ∈ approvals, d.2 < v.expiresAt.toInt64)
    (haccepted : besuReceive st s deliveries = some s') :
    Besu.ApprovalStore.get s' tx = ((offered deliveries).foldl (keepBest Verified.rank) o).map
      Verified.besu := by
  induction deliveries generalizing s o with
  | nil =>
    obtain rfl := Option.some.inj haccepted
    exact ho
  | cons d deliveries ih =>
    obtain ⟨b, now⟩ := d
    have hb := hmems (b, now) mem_cons_self
    have hnow := hlive (b, now) mem_cons_self
    rw [besuReceive] at haccepted
    set d := Besu.Decoded.ofBody b.bytes with hd
    split at haccepted
    · rename_i s₁ hput
      obtain ⟨hok, hs₁ : _ = s₁⟩ := Prod.ext_iff.mp hput
      -- the batch offers the best of its approvals
      have hall : (b.verified.map Verified.besu).filter (fun x => x.tx = tx) =
          b.verified.map Verified.besu := by
        rw [filter_eq_self, forall_mem_map]
        exact fun v hv => decide_eq_true ((tx_besu v).trans (htx v (hb v hv)))
      have hsome : (b.verified.foldl (keepBest Verified.rank) none).isSome = true :=
        foldl_keepBest_isSome (.inr b.verified_ne_nil)
      obtain ⟨best, hbest⟩ := Option.isSome_iff_exists.mp hsome
      have hoffer : offerOf (offers d.keyId d.issuedAt d.expiresAt d.approvals) tx =
          some best.besu := by
        rw [offerOf_offers, besuApprovals, hall, ← Option.map_none, foldl_keepBest_map rank_besu,
          hbest, Option.map_some]
      -- what is stored is one of the approvals, so it is valid still
      have hvalid : (Besu.ApprovalStore.get s tx).filter (fun old => old.usableAt now) =
          Besu.ApprovalStore.get s tx := by
        rw [ho]
        cases o with
        | none => rfl
        | some v => exact if_pos (decide_eq_true (hnow v (hmem v rfl)))
      have hstep := get_putAll hs.indexed hcap hok hoffer
      rw [hvalid, ho, keepBest_map rank_besu, hs₁] at hstep
      have hfold : keepBest Verified.rank o best = b.verified.foldl (keepBest Verified.rank) o := by
        rw [foldl_keepBest_eq o, hbest]
        rfl
      rw [hfold] at hstep
      rw [offered, flatMap_cons, foldl_append]
      refine ih (hs₁ ▸ consistent_putAll hs hcap) (hs₁ ▸ capacity_putAll hs hcap) hstep ?_
        (fun d hd => hmems d (mem_cons_of_mem _ hd))
        (fun d hd => hlive d (mem_cons_of_mem _ hd)) haccepted
      intro v hv
      rcases (foldl_keepBest hv).1 with hv | hv
      · exact hb v hv
      · exact hmem v hv
    · cases haccepted

end Deliveries

/-- Whatever the store, and however a collection reaches it, it ends up with the first of the
greatest approvals in some listing of the collection. -/
theorem Collection.leaves_eq {o : Option Kept} (h : c.Leaves o) :
    ∃ vs : List Verified, (∀ v, v ∈ vs ↔ v ∈ c.approvals) ∧
      o = (vs.foldl (keepBest Verified.rank) none).map Verified.kept := by
  cases h with
  | reth st ops deliveries s hfree hcarried hlive haccepted =>
    refine ⟨offered deliveries, hcarried, ?_⟩
    have htx : ∀ d ∈ deliveries, ∀ v ∈ d.1.verified, v.item.txHash = c.tx :=
      fun d hd v hv => c.one_tx v (hcarried.mem hd hv)
    rw [approvalOf_rethReceive (o := none) (Reth.Approvals.indexed_run st ops) hfree htx
      haccepted, Option.map_map]
    rfl
  | besu st ops deliveries s hfree hcarried hlive haccepted =>
    refine ⟨offered deliveries, hcarried, ?_⟩
    obtain ⟨hs, hcap⟩ := Besu.ApprovalStore.consistent_run st ops
    rw [get_besuReceive (o := none) hs hcap hfree nofun (fun d hd v hv => hcarried.mem hd hv)
      c.one_tx hlive haccepted, Option.map_map]
    exact congrFun (congrArg Option.map (funext kept_besu)) _

/-! ### Convergence -/

def Verified.alone (v : Verified) : SignedBatch where
  keyId := v.keyId
  issuedAt := v.issuedAt
  expiresAt := v.expiresAt
  items := [v.item]
  signature := List.Vector.replicate 64 0
  keyId_length := v.keyId_length
  keyId_bytes := v.keyId_bytes
  issued_before := v.issued_before
  items_length := ⟨le_refl 1, by simp⟩

/-- Approvals delivered one at a time, all at the same time. -/
def oneByOne (vs : List Verified) : List (SignedBatch × Reth.Approvals.Now) :=
  vs.map fun v => (v.alone, ⟨0, 0⟩)

theorem offered_oneByOne (vs : List Verified) : offered (oneByOne vs) = vs := by
  rw [offered, oneByOne, flatMap_map]
  exact flatMap_singleton' vs

open Reth.Approvals in
/-- A store with room for one approval accepts any approvals for one transaction. -/
theorem rethReceive_alone {tx : Hash} (htx : ∀ v ∈ vs, v.item.txHash = tx)
    {s : State} (hs : Indexed s) (hheld : s.held ⊆ {tx}) :
    ∃ s', rethReceive ⟨0, 1, 0⟩ s (oneByOne vs) = some s' := by
  induction vs generalizing s with
  | nil => exact ⟨s, rfl⟩
  | cons v vs ih =>
    let st : Store := ⟨0, 1, 0⟩
    have hnamed : ([v.reth].map Reth.Approval.txHash).toFinset = {tx} := by
      rw [← htx v mem_cons_self]
      rfl
    have hneeded : st.needed s [v.reth] = 0 := by
      have hcard : (({tx} : Finset Hash) \ s.held).card = 1 - s.held.card :=
        Finset.card_sdiff_of_subset hheld
      rw [Store.needed, length_fresh, hnamed, hcard, hs.card_held]
      exact Nat.sub_self _
    have hok : (st.putBatch s [v.reth] ⟨0, 0⟩).1 = .ok () := by
      rw [putBatch_ok_iff st hs, hneeded]
      exact Nat.zero_le _
    have hafter : (st.putBatch s [v.reth] ⟨0, 0⟩).2.held ⊆ {tx} := by
      rw [held_putBatch st hs hok, hnamed]
      exact Finset.union_subset (Finset.sdiff_subset.trans hheld) (Finset.Subset.refl _)
    obtain ⟨s', hs'⟩ := ih (fun w hw => htx w (mem_cons_of_mem v hw))
      (indexed_apply st hs (.putBatch [v.reth] ⟨0, 0⟩)) hafter
    refine ⟨s', ?_⟩
    have hput : st.putBatch s [v.reth] ⟨0, 0⟩ = (.ok (), (st.putBatch s [v.reth] ⟨0, 0⟩).2) :=
      Prod.ext hok rfl
    rw [oneByOne, map_cons, rethReceive, rethApprovals]
    show (match st.putBatch s [v.reth] ⟨0, 0⟩ with
      | (.ok (), s') => _
      | (.error _, _) => none) = _
    rw [hput]
    exact hs'

/-- Each of the greatest approvals of a collection is left by some deliveries. -/
theorem Collection.leaves_greatest (h : c.Greatest v) : c.Leaves (some v.kept) := by
  have htx : ∀ w ∈ v :: c.approvals, w.item.txHash = c.tx := by
    intro w hw
    rcases mem_cons.mp hw with rfl | hw
    · exact c.one_tx w h.1
    · exact c.one_tx w hw
  obtain ⟨s, hs⟩ := rethReceive_alone htx (Reth.Approvals.indexed_run ⟨0, 1, 0⟩ [])
    (Finset.empty_subset _)
  have hcarried : c.Carried (oneByOne (v :: c.approvals)) := by
    intro w
    rw [offered_oneByOne, mem_cons]
    constructor
    · rintro (rfl | hw)
      · exact h.1
      · exact hw
    · exact .inr
  have hlive : ∀ d ∈ oneByOne (v :: c.approvals), ∀ w ∈ c.approvals, d.2.ms < w.expiresAt := by
    intro d hd w _
    obtain ⟨_, -, rfl⟩ := mem_map.mp hd
    exact UInt64.lt_of_le_of_lt UInt64.zero_le w.issued_before
  have hkept : s.approvalOf c.tx = some v.reth := by
    rw [approvalOf_rethReceive (o := none) (Reth.Approvals.indexed_run _ []) rfl
      (fun d hd w hw => c.one_tx w (hcarried.mem hd hw)) hs, offered_oneByOne, foldl_cons]
    show Option.map _ (c.approvals.foldl _ (some v)) = _
    rw [foldl_keepBest_of_le h.2, Option.map_some]
  have hleaves := Collection.Leaves.reth ⟨0, 1, 0⟩ [] _ s rfl hcarried hlive hs
  rw [hkept] at hleaves
  exact hleaves

/-- Of a collection that is not empty, any listing gives one of the greatest. -/
theorem Collection.greatest_foldl (hvs : ∀ v, v ∈ vs ↔ v ∈ c.approvals) (hne : vs ≠ []) :
    ∃ v, vs.foldl (keepBest Verified.rank) none = some v ∧ c.Greatest v := by
  have hsome : (vs.foldl (keepBest Verified.rank) none).isSome = true :=
    foldl_keepBest_isSome (.inr hne)
  obtain ⟨v, hv⟩ := Option.isSome_iff_exists.mp hsome
  obtain ⟨hfrom, hmax, -⟩ := foldl_keepBest hv
  refine ⟨v, hv, (hvs v).mp (hfrom.resolve_right nofun), ?_⟩
  intro w hw
  exact hmax w ((hvs w).mpr hw)

/-- Stores that receive the same approvals for a transaction end up with the same one
(fingerprint, hash mode and expiry) exactly when the greatest of them agree in hash mode and
expiry, which the rank leaves out. -/
theorem Collection.converges_iff (c : Collection) :
    (∀ o o', c.Leaves o → c.Leaves o' → o = o') ↔
      ∀ v w, c.Greatest v → c.Greatest w →
        v.item.mode = w.item.mode ∧ v.expiresAt = w.expiresAt := by
  constructor
  · intro hconverges v w hv hw
    have hsame := Option.some.inj
      (hconverges _ _ (Collection.leaves_greatest hv) (Collection.leaves_greatest hw))
    obtain ⟨-, hmode, hexpires⟩ := Kept.mk.inj hsame
    refine ⟨?_, hexpires⟩
    cases hvmode : v.item.mode <;> cases hwmode : w.item.mode <;>
      simp [hvmode, hwmode, HashMode.code] at hmode ⊢
  · intro hagree o o' ho ho'
    obtain ⟨vs, hvs, rfl⟩ := Collection.leaves_eq ho
    obtain ⟨ws, hws, rfl⟩ := Collection.leaves_eq ho'
    by_cases hempty : vs = []
    · have hnone : ws = [] := by
        rw [eq_nil_iff_forall_not_mem]
        intro w hw
        rw [hws, ← hvs, hempty] at hw
        cases hw
      rw [hempty, hnone]
    · have hsome : ws ≠ [] := by
        obtain ⟨v, hv⟩ := exists_mem_of_ne_nil vs hempty
        exact ne_nil_of_mem ((hws v).mpr ((hvs v).mp hv))
      obtain ⟨v, hfold, hv⟩ := Collection.greatest_foldl hvs hempty
      obtain ⟨w, hfold', hw⟩ := Collection.greatest_foldl hws hsome
      obtain ⟨hmode, hexpires⟩ := hagree v w hv hw
      have hrank : v.rank = w.rank := le_antisymm (hw.2 v hv.1) (hv.2 w hw.1)
      obtain ⟨-, -, hfingerprint⟩ := rankOf_inj.mp hrank
      rw [hfold, hfold', Option.map_some, Option.map_some, Verified.kept, Verified.kept, hmode,
        hexpires, hfingerprint]

/-- An approval issued at 1000, with room for its expiry. -/
def sampleVerified (expiresAt : UInt64) (h : 1000 < expiresAt) : Verified where
  keyId := [107]
  issuedAt := 1000
  expiresAt := expiresAt
  item := ⟨.calls, 1, repeatByte 1, repeatByte 7, repeatByte 0⟩
  keyId_length := by decide
  keyId_bytes := by decide
  issued_before := h

/-- Two approvals of one key, issue time and fingerprint: which of them a store keeps is
decided by the order in which they come. -/
theorem order_decides_expiry :
    let early := (sampleVerified 2000 (by decide)).alone
    let late := (sampleVerified 3000 (by decide)).alone
    let reth := fun batches : List SignedBatch =>
      ((rethReceive ⟨0, 10, 0⟩ .init (batches.map fun b => (b, ⟨0, 1500⟩))).bind fun s =>
        s.approvalOf (repeatByte 1)).map rethKept
    let besu := fun batches : List SignedBatch =>
      ((besuReceive ⟨10, 0⟩ .init (batches.map fun b => (b, 1500))).bind fun s =>
        Besu.ApprovalStore.get s (repeatByte 1)).map besuKept
    reth [early, late] = some ⟨repeatByte 7, 3, 2000⟩ ∧
      reth [late, early] = some ⟨repeatByte 7, 3, 3000⟩ ∧
      besu [early, late] = some ⟨repeatByte 7, 3, 2000⟩ ∧
      besu [late, early] = some ⟨repeatByte 7, 3, 3000⟩ := by
  decide +kernel

end PrivacySuite.NodeApproval
