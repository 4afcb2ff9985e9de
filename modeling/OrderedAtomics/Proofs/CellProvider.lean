import OrderedAtomics.Proofs.Register

/-
  What is relied on of whoever provides a hardware cell.  The cells of the native widths and the
  cell of 128 bits that double words are kept in come from different providers.  All have the same
  few functions, and `Provider.Contract` says of each what it answers and what word it leaves.

  A provider that keeps the contract answers an access as the cell of this library does
  (`Contract.answer_eq`).  So two of them cannot be told apart by any user (`Contract.use_eq`), and
  what is said of storage holds of storage in a provided cell (`Contract.storage_perform`).  For
  double words the contract is one that two halves accessed together keep
  (`DoubleWord.halves_contract`).
-/
namespace OrderedAtomics

/-- A provider of cells of `w` bits: what it keeps a word in, and its functions on that. -/
structure Provider (w : Nat) where
  State : Type
  new : BitVec w → State
  word : State → BitVec w
  load : State → MemoryOrder → Except Fault (BitVec w)
  store : State → BitVec w → MemoryOrder → Except Fault State
  swap : State → BitVec w → MemoryOrder → Except Fault (BitVec w × State)
  compareExchange : State → Strength → BitVec w → BitVec w → MemoryOrder → MemoryOrder →
    Except Fault (Except (BitVec w) (BitVec w) × State)
  fetch : State → FetchOp → BitVec w → MemoryOrder → Except Fault (BitVec w × State)

/-- The outcome of an access to a word whose ordering may be a fault. -/
def unlessFault {α : Type} (fault? : Option Fault) (v : α) : Except Fault α :=
  match fault? with
  | some f => .error f
  | none => .ok v

namespace Provider

variable {w : Nat} {p q : Provider w} {ops : List FetchOp}

/-- The outcome of an access, with the word that is left in place of what it is kept in. -/
def shown {β : Type} (p : Provider w) (r : Except Fault (β × p.State)) :
    Except Fault (β × BitVec w) :=
  r.map fun x => (x.1, p.word x.2)

/-- What a provider promises: every function is one access to the one word, and an ordering that
makes no sense for it is refused before the word is touched.  Of the read-modify-writes only those
in `ops` are promised.  A weak compare-exchange fails only when the values differ. -/
structure Contract (p : Provider w) (ops : List FetchOp) : Prop where
  new : ∀ v, p.word (p.new v) = v
  load : ∀ s o, p.load s o = unlessFault o.loadFault? (p.word s)
  store : ∀ s v o, (p.store s v o).map p.word = unlessFault o.storeFault? v
  swap : ∀ s v o, p.shown (p.swap s v o) = .ok (p.word s, v)
  compareExchange : ∀ s k expected desired success failure,
    p.shown (p.compareExchange s k expected desired success failure) =
      unlessFault failure.failureFault?
        (if p.word s = expected then (.ok (p.word s), desired) else (.error (p.word s), p.word s))
  fetch : ∀ s, ∀ op ∈ ops, ∀ v o, p.shown (p.fetch s op v o) =
    .ok (p.word s, op.apply (p.word s) v)

/-- Performs one access. -/
def perform (p : Provider w) (s : p.State) : Access w → Except Fault (Reply (BitVec w) × p.State)
  | .load o => (p.load s o).map fun v => (.value v, s)
  | .store v o => (p.store s v o).map fun s' => (.done, s')
  | .swap v o => (p.swap s v o).map fun x => (.value x.1, x.2)
  | .compareExchange k expected desired success failure =>
    (p.compareExchange s k expected desired success failure).map fun x => (.exchanged x.1, x.2)
  | .fetch op v o => (p.fetch s op v o).map fun x => (.value x.1, x.2)

/-- The cell of this library that holds the same word. -/
def cell (p : Provider w) (s : p.State) : Cell w := ⟨p.word s⟩

/-- What an access answers, with the cell of this library in place of the provided one. -/
def answer (p : Provider w) (s : p.State) (a : Access w) :
    Except Fault (Reply (BitVec w) × Cell w) :=
  (p.perform s a).map fun r => (r.1, p.cell r.2)

/-- An access that needs no read-modify-write besides those in `ops`. -/
def Within (ops : List FetchOp) : Access w → Prop
  | .fetch op _ _ => op ∈ ops
  | .load _ | .store _ _ | .swap _ _ | .compareExchange _ _ _ _ _ => True

/-- The word that an access leaves is the one its function leaves. -/
theorem map_shown {β : Type} (r : Except Fault (β × p.State)) (f : β → Reply (BitVec w)) :
    (r.map fun x => (f x.1, x.2)).map (fun x => (x.1, p.cell x.2)) =
      (p.shown r).map fun x => (f x.1, ⟨x.2⟩) := by
  cases r <;> rfl

theorem map_word (r : Except Fault p.State) (reply : Reply (BitVec w)) :
    (r.map fun s => (reply, s)).map (fun x => (x.1, p.cell x.2)) =
      (r.map p.word).map fun word => (reply, ⟨word⟩) := by
  cases r <;> rfl

/-- A provided cell answers an access, and is left, as the cell of this library. -/
theorem Contract.answer_eq (h : p.Contract ops) (s : p.State) {a : Access w} (ha : Within ops a) :
    p.answer s a = (p.cell s).perform a := by
  unfold answer
  cases a with
  | load o =>
    rw [perform, h.load]
    cases o <;> rfl
  | store v o =>
    rw [perform, map_word, h.store]
    cases o <;> rfl
  | swap v o =>
    rw [perform, map_shown, h.swap]
    rfl
  | compareExchange k expected desired success failure =>
    rw [perform, map_shown, h.compareExchange]
    have hcell : (p.cell s).perform (.compareExchange k expected desired success failure) =
        (unlessFault failure.failureFault? (if p.word s = expected then
          (.ok (p.word s), ⟨desired⟩) else (.error (p.word s), p.cell s))).map
            fun x => (.exchanged x.1, x.2) := by
      cases failure <;> rfl
    rw [hcell]
    by_cases hword : p.word s = expected
    · rw [if_pos hword, if_pos hword]
      cases failure <;> rfl
    · rw [if_neg hword, if_neg hword]
      cases failure <;> rfl
  | fetch op v o =>
    rw [perform, map_shown, h.fetch s op ha]
    rfl

end Provider

/-! ## Users of a cell -/

/-- A user of a cell: it makes an access, and what it does next depends on the answer. -/
inductive User (w : Nat) where
  | done
  | access (a : Access w) (next : Except Fault (Reply (BitVec w)) → User w)

/-- A user that needs no read-modify-write besides those in `ops`, whatever is answered. -/
inductive User.Within {w : Nat} (ops : List FetchOp) : User w → Prop
  | done : Within ops .done
  | access {a next} (ha : Provider.Within ops a) (hnext : ∀ r, Within ops (next r)) :
      Within ops (.access a next)

namespace Provider

variable {w : Nat} {p q : Provider w} {ops : List FetchOp}

/-- What a user is answered, each time with the word that is left. -/
def use (p : Provider w) (s : p.State) :
    User w → List (Except Fault (Reply (BitVec w)) × BitVec w)
  | .done => []
  | .access a next =>
    match p.perform s a with
    | .ok (reply, s') => (.ok reply, p.word s') :: p.use s' (next (.ok reply))
    | .error f => (.error f, p.word s) :: p.use s (next (.error f))

/-- **No user can tell two providers apart.** Both keep the contract, and their cells hold the same
word at first.  Then a user is answered the same by both, and leaves the same words in both,
whatever it does upon what it is answered. -/
theorem Contract.use_eq (hp : p.Contract ops) (hq : q.Contract ops) {s : p.State} {t : q.State}
    (hst : p.word s = q.word t) {user : User w} (huser : user.Within ops) :
    p.use s user = q.use t user := by
  induction huser generalizing s t with
  | done => rfl
  | @access a next ha hnext ih =>
    have hcell : p.cell s = q.cell t := congrArg Cell.mk hst
    have hanswer : p.answer s a = q.answer t a := by
      rw [hp.answer_eq s ha, hq.answer_eq t ha, hcell]
    unfold answer at hanswer
    unfold use
    cases hps : p.perform s a with
    | error f =>
      cases hqt : q.perform t a with
      | ok r => rw [hps, hqt] at hanswer; cases hanswer
      | error f' =>
        rw [hps, hqt] at hanswer
        cases hanswer
        dsimp only
        rw [hst, ih (.error f) hst]
    | ok r =>
      cases hqt : q.perform t a with
      | error f => rw [hps, hqt] at hanswer; cases hanswer
      | ok r' =>
        rw [hps, hqt] at hanswer
        obtain ⟨hreply, hcell⟩ := Prod.mk.inj (Except.ok.inj hanswer)
        have hleft : p.word r.2 = q.word r'.2 := congrArg Cell.bits hcell
        dsimp only
        rw [hreply, hleft, ih (.ok r'.1) hleft]

/-- An operation on storage in a provided cell: the access it makes, with what the cell answers
decoded. -/
theorem Contract.storage_perform {α : Type} [Codec α] {p : Provider (Codec.width α)}
    (h : p.Contract (Codec.fetches α)) (s : p.State) {op : Operation α}
    (hop : op.supported = true) :
    (p.answer s op.access).map (fun r => (r.1.map Codec.decode, ⟨r.2⟩)) =
      (⟨p.cell s⟩ : Storage α).perform op := by
  have hwithin : Within (Codec.fetches α) op.access := by
    have hneeds := Operation.supported_iff.mp hop
    cases op with
    | fetch op v o => exact hneeds op (List.mem_singleton_self op)
    | fetchModify op v o => exact hneeds op (FetchOp.mem_all op)
    | fetchBitwise op v o =>
      refine hneeds op.toFetchOp ?_
      cases op <;> simp [Register.needs, BitwiseOp.toFetchOp]
    | load | store | exchange | compareExchange => trivial
  rw [h.answer_eq s hwithin, Storage.perform_eq_access]

end Provider

namespace DoubleWord

/-- A double word kept as its two halves. -/
def halves : Provider 128 where
  State := DoubleWord
  new := ofBits
  word := toBits
  load d o := unlessFault o.loadFault? d.toBits
  store _ v o := unlessFault o.storeFault? (ofBits v)
  swap d v _ := .ok (d.toBits, ofBits v)
  compareExchange d _ expected desired _ failure := unlessFault failure.failureFault?
    (if d.high = (ofBits expected).high ∧ d.low = (ofBits expected).low
      then (.ok d.toBits, ofBits desired) else (.error d.toBits, d))
  fetch d _ _ _ := .ok (d.toBits, d)

theorem toBits_eq_iff (d : DoubleWord) (bits : BitVec 128) :
    d.toBits = bits ↔ d.high = (ofBits bits).high ∧ d.low = (ofBits bits).low := by
  constructor
  · rintro rfl
    rw [ofBits_toBits]
    exact ⟨rfl, rfl⟩
  · rintro ⟨hhigh, hlow⟩
    calc
      d.toBits = (⟨(ofBits bits).high, (ofBits bits).low⟩ : DoubleWord).toBits := by
        rw [← hhigh, ← hlow]
      _ = bits := toBits_ofBits bits

/-- Two halves that are accessed together keep the contract of a double word's cell. -/
theorem halves_contract : halves.Contract (Codec.fetches DoubleWord) where
  new := toBits_ofBits
  load _ _ := rfl
  store _ v o := by
    cases o <;> simp [halves, unlessFault, MemoryOrder.storeFault?, Except.map, toBits_ofBits]
  swap _ v _ := by simp [halves, Provider.shown, Except.map, toBits_ofBits]
  compareExchange d k expected desired success failure := by
    by_cases h : toBits d = expected
    · have hhalves := (toBits_eq_iff d expected).mp h
      cases failure <;> simp [halves, Provider.shown, unlessFault, MemoryOrder.failureFault?,
        Except.map, toBits_ofBits, h, hhalves]
    · have hhalves := mt (toBits_eq_iff d expected).mpr h
      cases failure <;> simp [halves, Provider.shown, unlessFault, MemoryOrder.failureFault?,
        Except.map, h, hhalves]
  fetch _ _ hop := nomatch hop

end DoubleWord

end OrderedAtomics
