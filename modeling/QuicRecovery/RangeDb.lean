import QuicRecovery.State

/-!
# The receiver-side ACK range database

A send context remembers the packet numbers it has received as blocks of
consecutive numbers, largest first.  Block 0 is
`[largest_range - first_range, largest_range]`; each entry `(gap, range)` of
`ranges[]` describes the next block relative to the smallest number of the one
before it: its largest number is `smallest - gap - 2` and it holds
`range + 1` numbers.  `blocksBelow` decodes that relative encoding and
`RangeDb.Acked` is the set of numbers the database holds.

The database is well formed (`RangeDb.WF`) when it has at most
`NJT_QUIC_MAX_RANGES` entries, when decoding never goes below zero, and when
an empty database (`largest_range = NJT_QUIC_UNSET_PN`) has no first range and
no entries, as `njt_quic_drop_ack_ranges` and the connection's initialisation
leave it.

This file also models the lookup loop of `njt_quic_ack_packet` (`lookup`) and
proves what each of its outcomes does to the set (`lookup_known`,
`lookup_tooOld`, `lookup_edit`), and models `njt_quic_drop_ack_ranges`.
-/

namespace NjtQuic

/-! ## Decoding -/

/-- Whether one of the blocks `[lo, hi]` of a list holds `x`. -/
def Covers : List (Nat × Nat) → Nat → Prop
  | [], _ => False
  | b :: bs, x => (b.1 ≤ x ∧ x ≤ b.2) ∨ Covers bs x

instance decCovers : (bs : List (Nat × Nat)) → (x : Nat) → Decidable (Covers bs x)
  | [], _ => isFalse id
  | b :: bs, x =>
    haveI := decCovers bs x
    inferInstanceAs (Decidable ((b.1 ≤ x ∧ x ≤ b.2) ∨ Covers bs x))

@[simp] theorem covers_nil (x : Nat) : Covers [] x ↔ False := Iff.rfl

@[simp] theorem covers_cons (b : Nat × Nat) (bs : List (Nat × Nat)) (x : Nat) :
    Covers (b :: bs) x ↔ (b.1 ≤ x ∧ x ≤ b.2) ∨ Covers bs x := Iff.rfl

/-- Whether the last (lowest) block of a list holds `x`. -/
def LastCovers (bs : List (Nat × Nat)) (x : Nat) : Prop :=
  match bs.getLast? with
  | some b => b.1 ≤ x ∧ x ≤ b.2
  | none => False

/-- The blocks described by `ranges[i ..]`, below a block whose smallest packet
number is `smallest`. -/
def blocksBelow : Nat → List AckRange → List (Nat × Nat)
  | _, [] => []
  | smallest, r :: rs =>
    (smallest - r.gap - 2 - r.range, smallest - r.gap - 2) ::
      blocksBelow (smallest - r.gap - 2 - r.range) rs

@[simp] theorem blocksBelow_nil (s : Nat) : blocksBelow s [] = [] := rfl

@[simp] theorem blocksBelow_cons (s : Nat) (r : AckRange) (rs : List AckRange) :
    blocksBelow s (r :: rs) =
      (s - r.gap - 2 - r.range, s - r.gap - 2) :: blocksBelow (s - r.gap - 2 - r.range) rs := rfl

/-- Decoding `ranges[i ..]` never goes below zero. -/
def Fits : Nat → List AckRange → Prop
  | _, [] => True
  | smallest, r :: rs => r.gap + 2 + r.range ≤ smallest ∧ Fits (smallest - r.gap - 2 - r.range) rs

instance decFits : (s : Nat) → (rs : List AckRange) → Decidable (Fits s rs)
  | _, [] => isTrue trivial
  | s, r :: rs =>
    haveI := decFits (s - r.gap - 2 - r.range) rs
    inferInstanceAs (Decidable (r.gap + 2 + r.range ≤ s ∧ Fits (s - r.gap - 2 - r.range) rs))

@[simp] theorem fits_nil (s : Nat) : Fits s [] ↔ True := Iff.rfl

@[simp] theorem fits_cons (s : Nat) (r : AckRange) (rs : List AckRange) :
    Fits s (r :: rs) ↔ r.gap + 2 + r.range ≤ s ∧ Fits (s - r.gap - 2 - r.range) rs := Iff.rfl

/-- The smallest packet number the database remembers below `smallest`
(`smallest` itself when `ranges[i ..]` is empty). -/
def lowest : Nat → List AckRange → Nat
  | s, [] => s
  | s, r :: rs => lowest (s - r.gap - 2 - r.range) rs

/-- The blocks of a database, largest first. -/
def RangeDb.blocks (db : RangeDb) : List (Nat × Nat) :=
  if db.largestRange = unsetPn then []
  else (db.largestRange - db.firstRange, db.largestRange) ::
    blocksBelow (db.largestRange - db.firstRange) db.ranges

/-- The packet numbers a database holds. -/
def RangeDb.Acked (db : RangeDb) (x : Nat) : Prop := Covers db.blocks x

instance (db : RangeDb) (x : Nat) : Decidable (db.Acked x) :=
  inferInstanceAs (Decidable (Covers db.blocks x))

/-- A well-formed database of at most `maxRanges` entries. -/
structure RangeDb.WF (maxRanges : Nat) (db : RangeDb) : Prop where
  length_le : db.ranges.length ≤ maxRanges
  empty_of_unset : db.largestRange = unsetPn → db.firstRange = 0 ∧ db.ranges = []
  fits : db.largestRange ≠ unsetPn →
    db.firstRange ≤ db.largestRange ∧ Fits (db.largestRange - db.firstRange) db.ranges

instance (maxRanges : Nat) (db : RangeDb) : Decidable (db.WF maxRanges) :=
  decidable_of_iff (db.ranges.length ≤ maxRanges ∧
      (db.largestRange = unsetPn → db.firstRange = 0 ∧ db.ranges = []) ∧
      (db.largestRange ≠ unsetPn →
        db.firstRange ≤ db.largestRange ∧ Fits (db.largestRange - db.firstRange) db.ranges))
    ⟨fun ⟨a, b, c⟩ => ⟨a, b, c⟩, fun ⟨a, b, c⟩ => ⟨a, b, c⟩⟩

theorem RangeDb.wf_empty (maxRanges : Nat) : RangeDb.empty.WF maxRanges :=
  ⟨Nat.zero_le _, fun _ => ⟨rfl, rfl⟩, fun h => absurd rfl h⟩

/-! ## Facts about decoded blocks -/

theorem lowest_le : ∀ (s : Nat) (rs : List AckRange), lowest s rs ≤ s
  | _, [] => le_rfl
  | s, r :: rs => (lowest_le _ rs).trans (by omega)

theorem lowest_cons (s : Nat) (r : AckRange) (rs : List AckRange) :
    lowest s (r :: rs) = lowest (s - r.gap - 2 - r.range) rs := rfl

theorem LastCovers.covers {bs : List (Nat × Nat)} {x : Nat} (h : LastCovers bs x) :
    Covers bs x := by
  induction bs with
  | nil => simp [LastCovers] at h
  | cons b bs ih =>
    cases bs with
    | nil => simpa [LastCovers] using h
    | cons b' bs => exact .inr (ih (by simpa [LastCovers] using h))

/-- Every block below `s` lies in `[lowest s rs, s - 2]`. -/
theorem covers_blocksBelow_bounds : ∀ (s : Nat) (rs : List AckRange), Fits s rs →
    ∀ x, Covers (blocksBelow s rs) x → lowest s rs ≤ x ∧ x + 2 ≤ s
  | _, [], _, _, hx => hx.elim
  | s, r :: rs, ⟨hr, hf⟩, x, hx => by
    have ih := covers_blocksBelow_bounds _ rs hf
    simp only [blocksBelow_cons, covers_cons] at hx
    rcases hx with hx | hx
    · have : lowest (s - r.gap - 2 - r.range) rs ≤ s - r.gap - 2 - r.range :=
        lowest_le _ rs
      simp only [lowest]; omega
    · have := ih x hx; simp only [lowest]; omega

/-- Decoding commutes with forgetting the last entry. -/
theorem blocksBelow_dropLast : ∀ (s : Nat) (rs : List AckRange),
    blocksBelow s rs.dropLast = (blocksBelow s rs).dropLast
  | _, [] => rfl
  | _, [_] => rfl
  | s, r :: r' :: rs => by
    rw [List.dropLast_cons₂, blocksBelow_cons, blocksBelow_dropLast, blocksBelow_cons s r,
      List.dropLast_cons_of_ne_nil (by simp)]

/-- Without its last block a list of decoded blocks holds exactly what the
list holds outside that block: the last block lies below all others. -/
theorem covers_dropLast : ∀ (s : Nat) (rs : List AckRange), Fits s rs → ∀ x,
    Covers (blocksBelow s rs).dropLast x ↔
      Covers (blocksBelow s rs) x ∧ ¬ LastCovers (blocksBelow s rs) x
  | _, [], _, x => by simp [LastCovers]
  | s, [r], _, x => by simp [LastCovers]
  | s, r :: r' :: rs, ⟨hr, hf⟩, x => by
    have ih := covers_dropLast _ (r' :: rs) hf x
    have hb := covers_blocksBelow_bounds _ (r' :: rs) hf
    have hlast : LastCovers (blocksBelow s (r :: r' :: rs)) x ↔
        LastCovers (blocksBelow (s - r.gap - 2 - r.range) (r' :: rs)) x := by
      simp only [LastCovers, blocksBelow_cons, List.getLast?_cons_cons]
    rw [hlast, blocksBelow_cons, List.dropLast_cons_of_ne_nil (by simp), covers_cons,
      covers_cons, ih]
    constructor
    · rintro (h | ⟨h, hn⟩)
      · refine ⟨.inl h, fun hl => ?_⟩
        have := hb x hl.covers
        omega
      · exact ⟨.inr h, hn⟩
    · rintro ⟨h | h, hn⟩
      · exact .inl h
      · exact .inr ⟨h, hn⟩

/-! ## The lookup loop of `njt_quic_ack_packet` -/

/-- What the lookup loop of `njt_quic_ack_packet` decides for a packet number
`pn` below the block whose smallest number is `smallest`. -/
inductive Lookup where
  /-- "this packet number is already known" -/
  | known
  /-- the table is full and `pn` lies below every block: "packet is too old to
  keep it" -/
  | tooOld
  /-- the block above grows down by `grow` and `ranges[i ..]` becomes `ranges`;
  `split` marks the branch that splits a gap in two ("current gap is split
  into two parts"), which flushes a full table first -/
  | edit (grow : Nat) (ranges : List AckRange) (split : Bool)

/-- The `insert:` label of `njt_quic_ack_packet`: put `r` in front of
`ranges[i ..]`; when the table is full, `nranges` stays and the last entry
falls off the end of the array. -/
def insertRange (full : Bool) (r : AckRange) (rs : List AckRange) : List AckRange :=
  if full then (r :: rs).dropLast else r :: rs

/-- The `for (i = 0; i < ctx->nranges; i++)` loop of `njt_quic_ack_packet` and
the code after it, over `ranges[i ..]`, where `smallest` is the smallest number
of block `i` and `pn < smallest`.  An edit of the previous entry
(`ctx->ranges[i - 1].range += ...`, or `first_range` when `i = 0`) is returned
as `grow` and applied by the caller, one level up.  The source subtracts in
`uint64_t`; on entries that fit (`Fits smallest ranges`), the only ones the
lemmas below consider, none of its subtractions wraps. -/
def lookup (full : Bool) (pn : Nat) : Nat → List AckRange → Lookup
  | smallest, [] =>
    -- extend first or last range
    if pn = smallest - 1 then .edit 1 [] false
    -- packet is too old to keep it
    else if full then .tooOld
    -- nothing found, add new range at the tail
    else .edit 0 [⟨smallest - 2 - pn, 0⟩] false
  | smallest, r :: rs =>
    let ge := smallest - 1
    let gs := ge - r.gap
    if gs ≤ pn ∧ pn ≤ ge then
      -- gap size is exactly one packet, now filled
      if gs = ge then .edit (r.range + 2) rs false
      -- current gap shrinks from tail (current range grows)
      else if pn = gs then .edit 0 (⟨r.gap - 1, r.range + 1⟩ :: rs) false
      -- current gap shrinks from head (previous range grows)
      else if pn = ge then .edit 1 (⟨r.gap - 1, r.range⟩ :: rs) false
      -- current gap is split into two parts
      else .edit 0 (insertRange full ⟨ge - pn - 1, 0⟩ (⟨pn - gs - 1, r.range⟩ :: rs)) true
    else
      let largest := smallest - r.gap - 2
      let smallest' := largest - r.range
      if smallest' ≤ pn ∧ pn ≤ largest then .known
      else
        match lookup full pn smallest' rs with
        | .edit grow rs' split => .edit 0 (⟨r.gap, r.range + grow⟩ :: rs') split
        | .known => .known
        | .tooOld => .tooOld

theorem fits_dropLast : ∀ (s : Nat) (rs : List AckRange), Fits s rs → Fits s rs.dropLast
  | _, [], _ => trivial
  | _, [_], _ => trivial
  | _, _ :: r' :: rs, ⟨hr, hf⟩ => ⟨hr, fits_dropLast _ (r' :: rs) hf⟩

/-- What an `edit` outcome of the lookup loop guarantees about `ranges[i ..]`
below a block whose smallest number is `s`. -/
structure EditSpec (full : Bool) (pn s : Nat) (rs : List AckRange) (k : Nat)
    (rs' : List AckRange) (sp : Bool) : Prop where
  grow_le : k ≤ s
  fits : Fits (s - k) rs'
  length : rs'.length ≤ rs.length ∨ (full = false ∧ rs'.length = rs.length + 1)
  /-- The numbers held below `s` are those held before and `pn`, less the lowest
  block when a split hit a full table. -/
  acked : ∀ x, ((s - k ≤ x ∧ x < s) ∨ Covers (blocksBelow (s - k) rs') x) ↔
    (Covers (blocksBelow s rs) x ∨ x = pn) ∧
      ¬ (sp = true ∧ full = true ∧ LastCovers (blocksBelow s rs) x)
  split_ne_nil : sp = true → rs ≠ []
  /-- A split is for a packet number that is held by no block and touches none. -/
  split_fresh : sp = true → ¬ Covers (blocksBelow s rs) pn ∧
    ¬ Covers (blocksBelow s rs) (pn + 1) ∧ pn + 1 < s ∧ 0 < pn ∧
    ¬ Covers (blocksBelow s rs) (pn - 1)
  /-- Any other edit of a full table is for a packet number next to a block. -/
  keep_adjacent : sp = false → full = true →
    pn + 1 = s ∨ Covers (blocksBelow s rs) (pn + 1) ∨ (0 < pn ∧ Covers (blocksBelow s rs) (pn - 1))

section EditCases

variable {full : Bool} {pn s : Nat}

/-- `pn` is just below the lowest block: that block grows. -/
theorem editSpec_extend (hpn : pn = s - 1) (hs : pn < s) :
    EditSpec full pn s [] 1 [] false where
  grow_le := by omega
  fits := trivial
  length := .inl le_rfl
  acked x := by simp only [blocksBelow_nil, covers_nil, or_false, false_or]; simp; omega
  split_ne_nil h := absurd h Bool.false_ne_true
  split_fresh h := absurd h Bool.false_ne_true
  keep_adjacent _ _ := .inl (by omega)

/-- `pn` is far below the lowest block: a new block at the tail. -/
theorem editSpec_tail (hpn : ¬ pn = s - 1) (hs : pn < s) (hfull : full = false) :
    EditSpec full pn s [] 0 [⟨s - 2 - pn, 0⟩] false where
  grow_le := Nat.zero_le _
  fits := ⟨by simp only; omega, trivial⟩
  length := .inr ⟨hfull, rfl⟩
  acked x := by simp; omega
  split_ne_nil h := absurd h Bool.false_ne_true
  split_fresh h := absurd h Bool.false_ne_true
  keep_adjacent _ h := absurd (hfull.symm.trans h) Bool.false_ne_true

end EditCases

section ConsCases

variable {full : Bool} {pn s : Nat} {r : AckRange} {rs : List AckRange}

/-- `pn` fills a one-number gap: the two blocks around it merge. -/
theorem editSpec_merge (hr : r.gap + 2 + r.range ≤ s) (hf : Fits (s - r.gap - 2 - r.range) rs)
    (hgap : s - 1 - r.gap ≤ pn ∧ pn ≤ s - 1) (heq : s - 1 - r.gap = s - 1) :
    EditSpec full pn s (r :: rs) (r.range + 2) rs false := by
  have ht : s - (r.range + 2) = s - r.gap - 2 - r.range := by omega
  refine ⟨by omega, ht ▸ hf, .inl (by simp), fun x => ?_, fun h => absurd h Bool.false_ne_true,
    fun h => absurd h Bool.false_ne_true, fun _ _ => .inl (by omega)⟩
  have hb := covers_blocksBelow_bounds _ rs hf x
  rw [ht]; simp only [blocksBelow_cons, covers_cons]
  by_cases hc : Covers (blocksBelow (s - r.gap - 2 - r.range) rs) x <;>
    simp only [hc, or_true, true_or, or_false, Bool.false_eq_true, false_and, not_false_eq_true,
      and_self, and_true]
  omega

/-- `pn` is the lowest number of a gap: the block below it grows up. -/
theorem editSpec_gapTail (hr : r.gap + 2 + r.range ≤ s) (hf : Fits (s - r.gap - 2 - r.range) rs)
    (hne : s - 1 - r.gap ≠ s - 1) (hpn : pn = s - 1 - r.gap) :
    EditSpec full pn s (r :: rs) 0 (⟨r.gap - 1, r.range + 1⟩ :: rs) false := by
  subst hpn
  have ht : s - (r.gap - 1) - 2 - (r.range + 1) = s - r.gap - 2 - r.range := by omega
  refine ⟨Nat.zero_le _, ⟨by simp only; omega, by simpa only [Nat.sub_zero, ht] using hf⟩, .inl (by simp),
    fun x => ?_, fun h => absurd h Bool.false_ne_true, fun h => absurd h Bool.false_ne_true,
    fun _ _ => .inr (.inr ⟨by omega, .inl ⟨by omega, by omega⟩⟩)⟩
  have hb := covers_blocksBelow_bounds _ rs hf x
  simp only [blocksBelow_cons, covers_cons, Nat.sub_zero, ht]
  by_cases hc : Covers (blocksBelow (s - r.gap - 2 - r.range) rs) x <;>
    simp only [hc, or_true, true_or, or_false, Bool.false_eq_true, false_and, not_false_eq_true,
      and_self, and_true]
  omega

/-- `pn` is the highest number of a gap: the block above it grows down. -/
theorem editSpec_gapHead (hr : r.gap + 2 + r.range ≤ s) (hf : Fits (s - r.gap - 2 - r.range) rs)
    (hne : s - 1 - r.gap ≠ s - 1) (hpn : pn = s - 1) :
    EditSpec full pn s (r :: rs) 1 (⟨r.gap - 1, r.range⟩ :: rs) false := by
  subst hpn
  have ht : s - 1 - (r.gap - 1) - 2 - r.range = s - r.gap - 2 - r.range := by omega
  refine ⟨by omega, ⟨by simp only; omega, by simpa only [ht] using hf⟩, .inl (by simp),
    fun x => ?_, fun h => absurd h Bool.false_ne_true, fun h => absurd h Bool.false_ne_true,
    fun _ _ => .inl (by omega)⟩
  have hb := covers_blocksBelow_bounds _ rs hf x
  simp only [blocksBelow_cons, covers_cons, ht]
  by_cases hc : Covers (blocksBelow (s - r.gap - 2 - r.range) rs) x <;>
    simp only [hc, or_true, true_or, or_false, Bool.false_eq_true, false_and, not_false_eq_true,
      and_self, and_true]
  omega

/-- Decoding the two entries a split leaves: the new one-number block `pn`,
then the old block unchanged. -/
theorem blocksBelow_split (hr : r.gap + 2 + r.range ≤ s) (hlo : s - 1 - r.gap < pn)
    (hhi : pn < s - 1) :
    blocksBelow s (⟨s - 1 - pn - 1, 0⟩ :: ⟨pn - (s - 1 - r.gap) - 1, r.range⟩ :: rs) =
      (pn, pn) :: blocksBelow s (r :: rs) := by
  have e2 : s - (s - 1 - pn - 1) - 2 = pn := by omega
  have e4 : pn - (pn - (s - 1 - r.gap) - 1) - 2 = s - r.gap - 2 := by omega
  simp only [blocksBelow_cons, e2, e4, Nat.sub_zero]

theorem fits_split (hr : r.gap + 2 + r.range ≤ s) (hf : Fits (s - r.gap - 2 - r.range) rs)
    (hlo : s - 1 - r.gap < pn) (hhi : pn < s - 1) :
    Fits s (⟨s - 1 - pn - 1, 0⟩ :: ⟨pn - (s - 1 - r.gap) - 1, r.range⟩ :: rs) := by
  have e1 : s - (s - 1 - pn - 1) - 2 - 0 = pn := by omega
  have e3 : pn - (pn - (s - 1 - r.gap) - 1) - 2 - r.range = s - r.gap - 2 - r.range := by omega
  simp only [fits_cons, e1, e3]
  exact ⟨by omega, by omega, hf⟩

/-- `pn` lies strictly inside a gap of three or more numbers: a new block. -/
theorem editSpec_split (hr : r.gap + 2 + r.range ≤ s) (hf : Fits (s - r.gap - 2 - r.range) rs)
    (hlo : s - 1 - r.gap < pn) (hhi : pn < s - 1) :
    EditSpec full pn s (r :: rs) 0
      (insertRange full ⟨s - 1 - pn - 1, 0⟩ (⟨pn - (s - 1 - r.gap) - 1, r.range⟩ :: rs)) true := by
  have hdec := @blocksBelow_split _ _ _ rs hr hlo hhi
  have hfits := fits_split hr hf hlo hhi
  -- every block of the old list lies below the gap `pn` is in
  have hB : ∀ x, Covers (blocksBelow s (r :: rs)) x → x + 2 ≤ s - r.gap := by
    intro x hx
    rcases hx with hx | hx
    · simp only at hx; omega
    · have := covers_blocksBelow_bounds _ rs hf x hx; omega
  refine ⟨Nat.zero_le _, ?_, ?_, fun x => ?_, fun _ => List.cons_ne_nil _ _, fun _ => ?_,
    fun h => absurd h (by decide)⟩
  · unfold insertRange; split
    · exact fits_dropLast _ _ hfits
    · exact hfits
  · unfold insertRange; split
    · exact .inl (by simp)
    · rename_i hfull; exact .inr ⟨by simpa using hfull, by simp⟩
  · have hx := hB x
    have hpn := hB pn
    rw [Nat.sub_zero]
    unfold insertRange; split
    · rename_i hfull
      rw [blocksBelow_dropLast, hdec, List.dropLast_cons_of_ne_nil (by simp), covers_cons,
        covers_dropLast _ _ ((fits_cons _ _ _).2 ⟨hr, hf⟩)]
      simp only [hfull, true_and]
      constructor
      · rintro (h | h | ⟨h, hl⟩)
        · omega
        · exact ⟨.inr (by omega), fun hl => by have := hB x hl.covers; omega⟩
        · exact ⟨.inl h, hl⟩
      · rintro ⟨h | h, hl⟩
        · exact .inr (.inr ⟨h, hl⟩)
        · exact .inr (.inl ⟨by omega, by omega⟩)
    · rename_i hfull
      rw [hdec, covers_cons]
      simp only [hfull, Bool.false_eq_true, false_and, and_false, not_false_eq_true, and_true]
      constructor
      · rintro (h | h | h)
        · omega
        · exact .inr (by omega)
        · exact .inl h
      · rintro (h | h)
        · exact .inr (.inr h)
        · exact .inr (.inl ⟨by omega, by omega⟩)
  · refine ⟨fun h => ?_, fun h => ?_, by omega, by omega, fun h => ?_⟩ <;>
      · have := hB _ h; omega

theorem lastCovers_blocksBelow_cons (s : Nat) (r : AckRange) {rs : List AckRange} (h : rs ≠ [])
    (x : Nat) : LastCovers (blocksBelow s (r :: rs)) x ↔
      LastCovers (blocksBelow (s - r.gap - 2 - r.range) rs) x := by
  obtain ⟨r', rs, rfl⟩ := List.exists_cons_of_ne_nil h
  simp only [LastCovers, blocksBelow_cons, List.getLast?_cons_cons]

/-- `pn` lies below block `i + 1`: whatever the loop does further down, entry
`i` absorbs the growth of the block below it. -/
theorem editSpec_under {k : Nat} {rs' : List AckRange} {sp : Bool}
    (hr : r.gap + 2 + r.range ≤ s) (hf : Fits (s - r.gap - 2 - r.range) rs)
    (ih : EditSpec full pn (s - r.gap - 2 - r.range) rs k rs' sp) :
    EditSpec full pn s (r :: rs) 0 (⟨r.gap, r.range + k⟩ :: rs') sp := by
  have hk := ih.grow_le
  have he : s - r.gap - 2 - (r.range + k) = s - r.gap - 2 - r.range - k := by omega
  refine ⟨Nat.zero_le _, ⟨by simp only; omega, by simpa only [Nat.sub_zero, he] using ih.fits⟩,
    ?_, fun x => ?_, fun _ => List.cons_ne_nil _ _, fun hsp => ?_, fun hsp hfl => ?_⟩
  · rcases ih.length with h | h
    · exact .inl (by simpa using h)
    · exact .inr ⟨h.1, by simpa using h.2⟩
  · have hb := covers_blocksBelow_bounds _ rs hf x
    have hQ : (sp = true ∧ full = true ∧ LastCovers (blocksBelow s (r :: rs)) x) ↔
        (sp = true ∧ full = true ∧ LastCovers (blocksBelow (s - r.gap - 2 - r.range) rs) x) := by
      constructor <;> rintro ⟨hsp, hfl, hl⟩ <;>
        exact ⟨hsp, hfl, by rwa [lastCovers_blocksBelow_cons s r (ih.split_ne_nil hsp)] at *⟩
    have hA : (s - r.gap - 2 - r.range ≤ x ∧ x ≤ s - r.gap - 2) →
        ¬ (sp = true ∧ full = true ∧ LastCovers (blocksBelow (s - r.gap - 2 - r.range) rs) x) :=
      fun ha ⟨_, _, hl⟩ => by have := hb hl.covers; omega
    have hsplit : ((s - 0 ≤ x ∧ x < s) ∨ Covers (blocksBelow (s - 0) (⟨r.gap, r.range + k⟩ :: rs')) x) ↔
        (s - r.gap - 2 - r.range ≤ x ∧ x ≤ s - r.gap - 2) ∨
          ((s - r.gap - 2 - r.range - k ≤ x ∧ x < s - r.gap - 2 - r.range) ∨
            Covers (blocksBelow (s - r.gap - 2 - r.range - k) rs') x) := by
      simp only [blocksBelow_cons, covers_cons, Nat.sub_zero, he]
      by_cases hc : Covers (blocksBelow (s - r.gap - 2 - r.range - k) rs') x <;>
        simp only [hc, or_true, or_false, iff_true, true_iff]
      omega
    rw [hsplit, ih.acked x, hQ, blocksBelow_cons, covers_cons]
    constructor
    · rintro (ha | ⟨hb', hq⟩)
      · exact ⟨.inl (.inl ha), hA ha⟩
      · exact ⟨hb'.elim (fun h => .inl (.inr h)) .inr, hq⟩
    · rintro ⟨(ha | hc) | hp, hq⟩
      · exact .inl ha
      · exact .inr ⟨.inl hc, hq⟩
      · exact .inr ⟨.inr hp, hq⟩
  · obtain ⟨h1, h2, h3, h4, h5⟩ := ih.split_fresh hsp
    simp only [blocksBelow_cons, covers_cons]
    refine ⟨?_, ?_, by omega, h4, ?_⟩ <;> rintro (h | h) <;> first | omega | contradiction
  · simp only [blocksBelow_cons, covers_cons]
    rcases ih.keep_adjacent hsp hfl with h | h | ⟨h0, h⟩
    · exact .inr (.inl (.inl ⟨by omega, by omega⟩))
    · exact .inr (.inl (.inr h))
    · exact .inr (.inr ⟨h0, .inr h⟩)

end ConsCases

/-- What an `edit` outcome of the lookup loop does, whichever branch produced
it. -/
theorem lookup_edit (full : Bool) (pn : Nat) : ∀ (s : Nat) (rs : List AckRange), Fits s rs →
    pn < s → ∀ {k rs' sp}, lookup full pn s rs = .edit k rs' sp → EditSpec full pn s rs k rs' sp
  | s, [], _, hpn, k, rs', sp, h => by
    simp only [lookup] at h
    split_ifs at h with h1 h2
    · cases h; exact editSpec_extend h1 hpn
    · cases h; exact editSpec_tail h1 hpn (by simpa using h2)
  | s, r :: rs, hfit, hpn, k, rs', sp, h => by
    obtain ⟨hr, hf⟩ := (fits_cons _ _ _).1 hfit
    simp only [lookup] at h
    split_ifs at h with h1 h2 h3 h4 h5
    · cases h; exact editSpec_merge hr hf h1 h2
    · cases h; exact editSpec_gapTail hr hf h2 h3
    · cases h; exact editSpec_gapHead hr hf h2 h4
    · cases h; exact editSpec_split hr hf (by omega) (by omega)
    · split at h
      · rename_i k' rs'' sp' hrec
        cases h
        exact editSpec_under hr hf (lookup_edit full pn _ rs hf (by omega) hrec)
      · cases h
      · cases h

/-- A `known` outcome is for a number the database already holds. -/
theorem lookup_known (full : Bool) (pn : Nat) : ∀ (s : Nat) (rs : List AckRange),
    lookup full pn s rs = .known → Covers (blocksBelow s rs) pn
  | s, [], h => by simp only [lookup] at h; split_ifs at h
  | s, r :: rs, h => by
    simp only [lookup] at h
    split_ifs at h with h1 h2 h3 h4 h5
    any_goals cases h
    · exact .inl h5
    · split at h
      · cases h
      · rename_i hrec; exact .inr (lookup_known full pn _ rs hrec)
      · cases h

/-- A `tooOld` outcome is for a full table and a number below every block and
not next to the lowest one. -/
theorem lookup_tooOld (full : Bool) (pn : Nat) : ∀ (s : Nat) (rs : List AckRange), Fits s rs →
    pn < s → lookup full pn s rs = .tooOld → full = true ∧ pn + 1 < lowest s rs
  | s, [], _, hpn, h => by
    simp only [lookup] at h
    split_ifs at h with h1 h2
    exact ⟨by simpa using h2, by simp only [lowest]; omega⟩
  | s, r :: rs, hfit, hpn, h => by
    obtain ⟨hr, hf⟩ := (fits_cons _ _ _).1 hfit
    simp only [lookup] at h
    split_ifs at h with h1 h2 h3 h4 h5
    split at h
    · cases h
    · cases h
    · rename_i hrec; exact lookup_tooOld full pn _ rs hf (by omega) hrec

/-- Conversely, a full table answers `tooOld` for every number below the
lowest block and not next to it. -/
theorem lookup_eq_tooOld (pn : Nat) : ∀ (s : Nat) (rs : List AckRange), Fits s rs →
    pn + 1 < lowest s rs → lookup true pn s rs = .tooOld
  | s, [], _, h => by
    simp only [lowest] at h
    simp only [lookup, if_neg (show ¬ pn = s - 1 by omega), if_true]
  | s, r :: rs, ⟨hr, hf⟩, h => by
    have hl := lowest_le (s - r.gap - 2 - r.range) rs
    rw [lowest_cons] at h
    simp only [lookup, if_neg (show ¬ (s - 1 - r.gap ≤ pn ∧ pn ≤ s - 1) by omega),
      if_neg (show ¬ (s - r.gap - 2 - r.range ≤ pn ∧ pn ≤ s - r.gap - 2) by omega),
      lookup_eq_tooOld pn _ rs hf h]

theorem length_insertRange (full : Bool) (r : AckRange) (rs : List AckRange) :
    (insertRange full r rs).length = if full then rs.length else rs.length + 1 := by
  cases full <;> simp [insertRange]

/-- Inserting in front keeps the numbers held, less the lowest block when the
table is full. -/
theorem covers_insertRange (full : Bool) {s : Nat} {r : AckRange} {rs : List AckRange}
    (hF : Fits s (r :: rs)) (x : Nat) :
    Covers (blocksBelow s (insertRange full r rs)) x ↔
      Covers (blocksBelow s (r :: rs)) x ∧ ¬ (full = true ∧ LastCovers (blocksBelow s (r :: rs)) x) := by
  cases full
  · simp [insertRange]
  · simp only [insertRange, if_true, blocksBelow_dropLast, covers_dropLast _ _ hF, true_and]

/-! ## `njt_quic_drop_ack_ranges`

The function keeps `largest` and `smallest` in `njt_uint_t` locals of `w`
bits: `largest = base` narrows `largest_range`, and the subtractions of the
loop wrap modulo `2^w`.  When `largest_range` is below `2^w`, as in every
database of a 64-bit build, where packet numbers are below `2^62`, nothing is
narrowed and the function keeps exactly the numbers above `pn`
(`RangeDb.acked_dropAckRanges`).  On every well-formed database it keeps no
other number (`RangeDb.acked_of_dropAckRanges`), and it may drop more.
-/

section Drop

variable {w : Nat}

/-- Subtracting in `w` bits what a larger number holds less. -/
theorem ofNat_sub_ofNat_of_le {a b : Nat} (h : b ≤ a) :
    BitVec.ofNat w a - BitVec.ofNat w b = BitVec.ofNat w (a - b) := by
  rw [show BitVec.ofNat w a = BitVec.ofNat w (a - b) + BitVec.ofNat w b by
    rw [← BitVec.ofNat_add, Nat.sub_add_cancel h], BitVec.add_sub_cancel]

/-- Taking `k` off a number whose remainder holds `k` takes it off the
remainder. -/
theorem sub_mod_of_le_mod {L k M : Nat} (hM : 0 < M) (h : k ≤ L % M) :
    (L - k) % M = L % M - k := by
  have := Nat.mod_add_div L M
  rw [show L - k = (L % M - k) + M * (L / M) by omega, Nat.add_mul_mod_self_left,
    Nat.mod_eq_of_lt (lt_of_le_of_lt (Nat.sub_le _ _) (Nat.mod_lt _ hM))]

/-- The loop of `njt_quic_drop_ack_ranges` over `ranges[i ..]`, where
`smallest` is the smallest number of block `i` in `njt_uint_t`: keep the
blocks above `pn` and cut the one that holds `pn` at `pn + 1`. -/
def dropRanges (pn : Nat) : BitVec w → List AckRange → List AckRange
  | _, [] => []
  | smallest, r :: rs =>
    let largest := smallest - BitVec.ofNat w r.gap - 2
    let smallest' := largest - BitVec.ofNat w r.range
    if pn ≥ largest.toNat then []
    else if pn ≥ smallest'.toNat then [{ r with range := largest.toNat - pn - 1 }]
    else r :: dropRanges pn smallest' rs

/-- The database part of `njt_quic_drop_ack_ranges` on a build whose
`njt_uint_t` has `w` bits: the peer has acknowledged an ACK frame whose
largest number is `pn`, so numbers up to `pn` need not be acknowledged
again. -/
def RangeDb.dropAckRanges (w : Nat) (db : RangeDb) (pn : Nat) : RangeDb :=
  if db.largestRange = unsetPn then db
  else
    let largest := BitVec.ofNat w db.largestRange
    let smallest := largest - BitVec.ofNat w db.firstRange
    if pn ≥ largest.toNat then ⟨unsetPn, 0, []⟩
    else if pn ≥ smallest.toNat then { db with firstRange := largest.toNat - pn - 1, ranges := [] }
    else { db with ranges := dropRanges pn smallest db.ranges }

/-- One step of the loop, on an entry that fits below `s`: the `njt_uint_t`
bounds are the decoded ones modulo `2^w`. -/
theorem dropRanges_cons (pn s : Nat) (r : AckRange) (rs : List AckRange)
    (hr : r.gap + 2 + r.range ≤ s) :
    dropRanges pn (BitVec.ofNat w s) (r :: rs) =
      if pn ≥ (s - r.gap - 2) % 2 ^ w then []
      else if pn ≥ (s - r.gap - 2 - r.range) % 2 ^ w then
        [{ r with range := (s - r.gap - 2) % 2 ^ w - pn - 1 }]
      else r :: dropRanges pn (BitVec.ofNat w (s - r.gap - 2 - r.range)) rs := by
  have e1 : BitVec.ofNat w s - BitVec.ofNat w r.gap - 2 = BitVec.ofNat w (s - r.gap - 2) := by
    rw [ofNat_sub_ofNat_of_le (by omega), show (2 : BitVec w) = BitVec.ofNat w 2 from rfl,
      ofNat_sub_ofNat_of_le (by omega)]
  rw [dropRanges]
  simp only [e1, ofNat_sub_ofNat_of_le (show r.range ≤ s - r.gap - 2 by omega), BitVec.toNat_ofNat]

/-- The loop cuts no block to more than it held. -/
theorem dropRanges_fits (pn : Nat) : ∀ (s : Nat) (rs : List AckRange), Fits s rs →
    Fits s (dropRanges pn (BitVec.ofNat w s) rs) ∧
      (dropRanges pn (BitVec.ofNat w s) rs).length ≤ rs.length
  | _, [], _ => ⟨trivial, le_rfl⟩
  | s, r :: rs, hfit => by
    obtain ⟨hr, hf⟩ := (fits_cons _ _ _).1 hfit
    have hM := Nat.two_pow_pos w
    have hL := Nat.mod_le (s - r.gap - 2) (2 ^ w)
    rw [dropRanges_cons pn s r rs hr]
    split_ifs with h1 h2
    · exact ⟨trivial, Nat.zero_le _⟩
    · by_cases hk : r.range ≤ (s - r.gap - 2) % 2 ^ w
      · have := sub_mod_of_le_mod hM hk
        exact ⟨⟨by simp only; omega, trivial⟩, by simp⟩
      · exact ⟨⟨by simp only; omega, trivial⟩, by simp⟩
    · have ih := dropRanges_fits pn _ rs hf
      exact ⟨⟨hr, ih.1⟩, by simpa using ih.2⟩

/-- The loop keeps no number that is not above `pn`, nor one the blocks did
not hold. -/
theorem covers_dropRanges (pn x : Nat) : ∀ (s : Nat) (rs : List AckRange), Fits s rs →
    Covers (blocksBelow s (dropRanges pn (BitVec.ofNat w s) rs)) x →
      Covers (blocksBelow s rs) x ∧ pn < x
  | _, [], _, hx => hx.elim
  | s, r :: rs, hfit, hx => by
    obtain ⟨hr, hf⟩ := (fits_cons _ _ _).1 hfit
    have hM := Nat.two_pow_pos w
    have hL := Nat.mod_le (s - r.gap - 2) (2 ^ w)
    have hS := Nat.mod_le (s - r.gap - 2 - r.range) (2 ^ w)
    rw [dropRanges_cons pn s r rs hr] at hx
    split_ifs at hx with h1 h2
    · exact hx.elim
    · -- the cut block: it starts above `pn` and inside the old one
      simp only [blocksBelow_cons, blocksBelow_nil, covers_cons, covers_nil, or_false] at hx ⊢
      by_cases hk : r.range ≤ (s - r.gap - 2) % 2 ^ w
      · have := sub_mod_of_le_mod hM hk
        omega
      · omega
    · simp only [blocksBelow_cons, covers_cons] at hx ⊢
      rcases hx with hx | hx
      · exact ⟨.inl hx, by omega⟩
      · exact (covers_dropRanges pn x _ rs hf hx).imp_left .inr

/-- Dropping keeps a database well formed. -/
theorem RangeDb.WF.dropAckRanges {maxRanges : Nat} {db : RangeDb} (h : db.WF maxRanges)
    (w pn : Nat) : (db.dropAckRanges w pn).WF maxRanges := by
  unfold RangeDb.dropAckRanges
  by_cases h0 : db.largestRange = unsetPn
  · rw [if_pos h0]; exact h
  obtain ⟨hle, hfit⟩ := h.fits h0
  have hM := Nat.two_pow_pos w
  have hL := Nat.mod_le db.largestRange (2 ^ w)
  simp only [if_neg h0, ofNat_sub_ofNat_of_le hle, BitVec.toNat_ofNat]
  split_ifs with h1 h2
  · exact RangeDb.wf_empty maxRanges
  · refine ⟨Nat.zero_le _, fun hu => absurd hu h0, fun _ => ⟨by simp only; omega, trivial⟩⟩
  · have hd := @dropRanges_fits w pn _ _ hfit
    exact ⟨hd.2.trans h.length_le, fun hu => absurd hu h0, fun _ => ⟨hle, hd.1⟩⟩

/-- On a well-formed database, dropping keeps no number that is not above
`pn`, whatever the width of `njt_uint_t`. -/
theorem RangeDb.acked_of_dropAckRanges {maxRanges : Nat} {db : RangeDb} (h : db.WF maxRanges)
    (w pn x : Nat) (hx : (db.dropAckRanges w pn).Acked x) : db.Acked x ∧ pn < x := by
  unfold RangeDb.dropAckRanges at hx
  by_cases h0 : db.largestRange = unsetPn
  · rw [if_pos h0] at hx
    exact absurd hx (by simp [RangeDb.Acked, RangeDb.blocks, h0])
  obtain ⟨hle, hfit⟩ := h.fits h0
  have hM := Nat.two_pow_pos w
  have hL := Nat.mod_le db.largestRange (2 ^ w)
  have hS := Nat.mod_le (db.largestRange - db.firstRange) (2 ^ w)
  simp only [if_neg h0, ofNat_sub_ofNat_of_le hle, BitVec.toNat_ofNat] at hx
  have hb : db.blocks = (db.largestRange - db.firstRange, db.largestRange) ::
      blocksBelow (db.largestRange - db.firstRange) db.ranges := by simp [RangeDb.blocks, h0]
  unfold RangeDb.Acked
  rw [hb, covers_cons]
  split_ifs at hx with h1 h2
  · exact absurd hx (by simp [RangeDb.Acked, RangeDb.blocks])
  · -- block 0 cut at `pn + 1`
    simp only [RangeDb.Acked, RangeDb.blocks, if_neg h0, blocksBelow_nil, covers_cons, covers_nil,
      or_false] at hx
    by_cases hk : db.firstRange ≤ db.largestRange % 2 ^ w
    · have := sub_mod_of_le_mod hM hk
      exact ⟨.inl (by omega), by omega⟩
    · exact ⟨.inl (by omega), by omega⟩
  · simp only [RangeDb.Acked, RangeDb.blocks, if_neg h0, covers_cons] at hx
    rcases hx with hx | hx
    · exact ⟨.inl hx, by omega⟩
    · exact (covers_dropRanges pn x _ _ hfit hx).imp_left .inr

/-- What dropping every number up to `pn` leaves of one block `[lo, hi]`: the
whole block when it lies above `pn`, `[pn + 1, hi]` when `pn` cuts it, and
nothing when it lies at or below `pn`. -/
def truncBlock (pn : Nat) (b : Nat × Nat) : Option (Nat × Nat) :=
  if pn < b.1 then some b else if pn < b.2 then some (pn + 1, b.2) else none

/-- Truncating a list of blocks one by one keeps exactly its numbers above `pn`. -/
theorem covers_filterMap_truncBlock (pn x : Nat) :
    ∀ bs : List (Nat × Nat), Covers (bs.filterMap (truncBlock pn)) x ↔ Covers bs x ∧ pn < x
  | [] => by simp
  | b :: bs => by
    have ih := covers_filterMap_truncBlock pn x bs
    rw [List.filterMap_cons, truncBlock]
    split_ifs <;> simp only [covers_cons, ih] <;> by_cases hc : Covers bs x <;>
      simp only [hc, true_and, false_and, or_false, or_true, false_iff] <;> omega

/-- Every block decoded below `smallest ≤ pn + 2` lies at or below `pn`. -/
theorem filterMap_truncBlock_blocksBelow_of_le (pn : Nat) : ∀ (s : Nat) (rs : List AckRange),
    s ≤ pn + 2 → (blocksBelow s rs).filterMap (truncBlock pn) = []
  | _, [], _ => rfl
  | s, r :: rs, hs => by
    rw [blocksBelow_cons, List.filterMap_cons, truncBlock, if_neg (by omega), if_neg (by omega)]
    exact filterMap_truncBlock_blocksBelow_of_le pn _ rs (by omega)

/-- Below `2^w` the loop of `njt_quic_drop_ack_ranges` truncates the blocks of
`ranges[i ..]`: it stops at the first block that reaches down to `pn`, cuts
that block at `pn + 1` or drops it, and drops everything below. -/
theorem blocksBelow_dropRanges (pn : Nat) : ∀ (s : Nat) (rs : List AckRange), s < 2 ^ w →
    Fits s rs →
    blocksBelow s (dropRanges pn (BitVec.ofNat w s) rs) = (blocksBelow s rs).filterMap (truncBlock pn)
  | _, [], _, _ => rfl
  | s, r :: rs, hs, hfit => by
    obtain ⟨hr, hf⟩ := (fits_cons _ _ _).1 hfit
    rw [dropRanges_cons pn s r rs hr, Nat.mod_eq_of_lt (show s - r.gap - 2 < 2 ^ w by omega),
      Nat.mod_eq_of_lt (show s - r.gap - 2 - r.range < 2 ^ w by omega),
      blocksBelow_cons, List.filterMap_cons, truncBlock]
    by_cases h1 : pn ≥ s - r.gap - 2
    · rw [if_pos h1, if_neg (by omega), if_neg (by omega),
        filterMap_truncBlock_blocksBelow_of_le pn _ rs (by omega), blocksBelow_nil]
    by_cases h2 : pn ≥ s - r.gap - 2 - r.range
    · rw [if_neg h1, if_pos h2, if_neg (by omega), if_pos (by omega),
        filterMap_truncBlock_blocksBelow_of_le pn _ rs (by omega), blocksBelow_cons, blocksBelow_nil]
      simp only [List.cons.injEq, Prod.mk.injEq, and_true]
      omega
    · rw [if_neg h1, if_neg h2, if_pos (by omega), blocksBelow_cons,
        blocksBelow_dropRanges pn _ rs (by omega) hf]

/-- On a well-formed database whose `largest_range` is below `2^w`,
`njt_quic_drop_ack_ranges` truncates the blocks. -/
theorem RangeDb.blocks_dropAckRanges {maxRanges : Nat} {db : RangeDb} (h : db.WF maxRanges)
    (hw : db.largestRange ≠ unsetPn → db.largestRange < 2 ^ w) (pn : Nat) :
    (db.dropAckRanges w pn).blocks = db.blocks.filterMap (truncBlock pn) := by
  unfold RangeDb.dropAckRanges RangeDb.blocks
  by_cases hu : db.largestRange = unsetPn
  · simp only [if_pos hu, List.filterMap_nil]
  obtain ⟨hle, hfit⟩ := h.fits hu
  have hlt := hw hu
  simp only [if_neg hu, ofNat_sub_ofNat_of_le hle, BitVec.toNat_ofNat,
    Nat.mod_eq_of_lt hlt, Nat.mod_eq_of_lt (show db.largestRange - db.firstRange < 2 ^ w by omega),
    List.filterMap_cons, truncBlock]
  by_cases h1 : pn ≥ db.largestRange
  · rw [if_pos h1, if_pos rfl, if_neg (by omega), if_neg (by omega),
      filterMap_truncBlock_blocksBelow_of_le pn _ _ (by omega)]
  by_cases h2 : pn ≥ db.largestRange - db.firstRange
  · rw [if_neg h1, if_pos h2, if_neg hu, if_neg (by omega), if_pos (by omega),
      filterMap_truncBlock_blocksBelow_of_le pn _ _ (by omega)]
    simp only [blocksBelow_nil, List.cons.injEq, Prod.mk.injEq, and_true]
    omega
  · rw [if_neg h1, if_neg h2, if_neg hu, if_pos (by omega),
      blocksBelow_dropRanges pn _ _ (by omega) hfit]

/-- On a well-formed database whose `largest_range` is below `2^w`, dropping
the numbers up to `pn` keeps exactly the numbers above it. -/
theorem RangeDb.acked_dropAckRanges {maxRanges : Nat} {db : RangeDb} (h : db.WF maxRanges)
    (hw : db.largestRange ≠ unsetPn → db.largestRange < 2 ^ w) (pn x : Nat) :
    (db.dropAckRanges w pn).Acked x ↔ db.Acked x ∧ pn < x := by
  unfold RangeDb.Acked
  rw [RangeDb.blocks_dropAckRanges h hw, covers_filterMap_truncBlock]

end Drop

/-! ## The database part of `njt_quic_ack_packet`

`RangeDb.record` is what `njt_quic_ack_packet` does to the database of the
packet's context (`ackPacket_db` in `AckPacket` proves it), and
`RangeDb.RecordSpec` what that means for the set of numbers held.
-/

/-- The smallest number a database holds. -/
def RangeDb.smallest (db : RangeDb) : Nat := lowest (db.largestRange - db.firstRange) db.ranges

/-- `pn` is next to a number the database holds. -/
def RangeDb.Adjacent (db : RangeDb) (pn : Nat) : Prop :=
  db.Acked (pn + 1) ∨ (0 < pn ∧ db.Acked (pn - 1))

/-- The lowest block of a database holds `x`. -/
def RangeDb.InLowest (db : RangeDb) (x : Nat) : Prop := LastCovers db.blocks x

/-- `pn` can be recorded without giving anything up: it is held already, it
is next to a block, or `ranges[]` has a free entry. -/
def RangeDb.HasRoom (maxRanges pn : Nat) (db : RangeDb) : Prop :=
  db.Acked pn ∨ db.Adjacent pn ∨ db.ranges.length < maxRanges

/-- The branches of `njt_quic_ack_packet` that edit the database, in the
source's order. -/
def RangeDb.record (maxRanges pn : Nat) (db : RangeDb) : RangeDb :=
  if db.largestRange = unsetPn then { db with largestRange := pn }
  else if db.largestRange = pn then db
  else
    let full := decide (db.ranges.length = maxRanges)
    let smallest := db.largestRange - db.firstRange
    if pn > db.largestRange then
      if pn - db.largestRange = 1 then
        { db with firstRange := db.firstRange + 1, largestRange := pn }
      else ⟨pn, 0, insertRange full ⟨pn - db.largestRange - 2, db.firstRange⟩ db.ranges⟩
    else if smallest ≤ pn ∧ pn ≤ db.largestRange then db
    else
      match lookup full pn smallest db.ranges with
      | .edit grow ranges _ => { db with firstRange := db.firstRange + grow, ranges }
      | .known => db
      | .tooOld => db

/-- What recording `pn` into `db` must give: a well-formed database `db'`
whose `largest_range` is its largest number, holding the old numbers and `pn`
when there is room; a full table ignores a `pn` below its lowest block and
otherwise gives that block up for `pn`. -/
structure RangeDb.RecordSpec (maxRanges pn : Nat) (db db' : RangeDb) : Prop where
  wf : db'.WF maxRanges
  acked_largest : db'.Acked db'.largestRange
  le_largest : ∀ x, db'.Acked x → x ≤ db'.largestRange
  adds : db.HasRoom maxRanges pn → ∀ x, db'.Acked x ↔ db.Acked x ∨ x = pn
  ignores : ¬ db.HasRoom maxRanges pn → db.largestRange ≠ unsetPn → pn + 1 < db.smallest →
    ∀ x, db'.Acked x ↔ db.Acked x
  evicts : ¬ db.HasRoom maxRanges pn → ¬ (db.largestRange ≠ unsetPn ∧ pn + 1 < db.smallest) →
    ∀ x, db'.Acked x ↔ (db.Acked x ∨ x = pn) ∧ ¬ db.InLowest x

section Record

variable {m pn : Nat} {db db' : RangeDb}

theorem RangeDb.acked_iff (h : db.largestRange ≠ unsetPn) (x : Nat) :
    db.Acked x ↔ (db.largestRange - db.firstRange ≤ x ∧ x ≤ db.largestRange) ∨
      Covers (blocksBelow (db.largestRange - db.firstRange) db.ranges) x := by
  simp [RangeDb.Acked, RangeDb.blocks, h]

theorem RangeDb.acked_mk_iff {lr fr : Nat} {rs : List AckRange} (h : lr ≠ unsetPn) (x : Nat) :
    RangeDb.Acked ⟨lr, fr, rs⟩ x ↔ (lr - fr ≤ x ∧ x ≤ lr) ∨ Covers (blocksBelow (lr - fr) rs) x :=
  RangeDb.acked_iff h x

theorem RangeDb.not_acked_of_unset (h : db.largestRange = unsetPn) (x : Nat) : ¬ db.Acked x := by
  simp [RangeDb.Acked, RangeDb.blocks, h]

theorem RangeDb.acked_largestRange (h : db.largestRange ≠ unsetPn) : db.Acked db.largestRange :=
  (RangeDb.acked_iff h _).2 (.inl ⟨Nat.sub_le _ _, le_rfl⟩)

/-- Every number a well-formed database holds lies in
`[smallest, largest_range]`. -/
theorem RangeDb.WF.bounds (hwf : db.WF m) {x : Nat} (hx : db.Acked x) :
    db.smallest ≤ x ∧ x ≤ db.largestRange := by
  by_cases hu : db.largestRange = unsetPn
  · exact absurd hx (RangeDb.not_acked_of_unset hu x)
  obtain ⟨hle, hfit⟩ := hwf.fits hu
  have hlow := lowest_le (db.largestRange - db.firstRange) db.ranges
  simp only [RangeDb.smallest]
  rcases (RangeDb.acked_iff hu x).1 hx with h | h
  · omega
  · have := covers_blocksBelow_bounds _ _ hfit x h; omega

theorem RangeDb.WF.not_hasRoom (hwf : db.WF m) (hlo : pn + 1 < db.smallest)
    (hfull : db.ranges.length = m) : ¬ db.HasRoom m pn := by
  rintro (h | (h | ⟨_, h⟩) | h)
  all_goals first | omega | (have hb := (hwf.bounds h).1; omega)

theorem RangeDb.RecordSpec.of_union (hwf' : db'.WF m) (hne' : db'.largestRange ≠ unsetPn)
    (hroom : db.HasRoom m pn) (hS' : ∀ x, db'.Acked x ↔ db.Acked x ∨ x = pn) :
    db.RecordSpec m pn db' :=
  ⟨hwf', RangeDb.acked_largestRange hne', fun _ hx => (hwf'.bounds hx).2, fun _ => hS',
    fun h => absurd hroom h, fun h => absurd hroom h⟩

theorem RangeDb.RecordSpec.of_evict (hwf' : db'.WF m) (hne' : db'.largestRange ≠ unsetPn)
    (hroom : ¬ db.HasRoom m pn) (hlo : ¬ (db.largestRange ≠ unsetPn ∧ pn + 1 < db.smallest))
    (hS' : ∀ x, db'.Acked x ↔ (db.Acked x ∨ x = pn) ∧ ¬ db.InLowest x) :
    db.RecordSpec m pn db' :=
  ⟨hwf', RangeDb.acked_largestRange hne', fun _ hx => (hwf'.bounds hx).2, fun h => absurd h hroom,
    fun _ hu hl => absurd ⟨hu, hl⟩ hlo, fun _ _ => hS'⟩

/-- Whichever branch is taken, recording `pn` adds no number but `pn`. -/
theorem RangeDb.RecordSpec.acked_of (hs : db.RecordSpec m pn db') {x : Nat} (hx : db'.Acked x) :
    db.Acked x ∨ x = pn := by
  by_cases hroom : db.HasRoom m pn
  · exact (hs.adds hroom x).1 hx
  by_cases hlo : db.largestRange ≠ unsetPn ∧ pn + 1 < db.smallest
  · exact .inl ((hs.ignores hroom hlo.1 hlo.2 x).1 hx)
  · exact ((hs.evicts hroom hlo x).1 hx).1

theorem RangeDb.full_of_not_hasRoom (hwf : db.WF m) (h : ¬ db.HasRoom m pn) :
    db.ranges.length = m := by
  have := hwf.length_le
  by_contra hne
  exact h (.inr (.inr (by omega)))

/-- The first packet of an empty database. -/
theorem recordSpec_unset (hwf : db.WF m) (hu : db.largestRange = unsetPn) (hpn : pn < unsetPn) :
    db.RecordSpec m pn { db with largestRange := pn } := by
  obtain ⟨h0, hr⟩ := hwf.empty_of_unset hu
  have hne : pn ≠ unsetPn := by omega
  have hwf' : ({ db with largestRange := pn } : RangeDb).WF m :=
    ⟨by simp [hr], fun h => absurd h hne, fun _ => by simp [h0, hr]⟩
  have hS' : ∀ x, ({ db with largestRange := pn } : RangeDb).Acked x ↔ x = pn := by
    intro x
    rw [RangeDb.acked_mk_iff hne]
    simp only [h0, hr, blocksBelow_nil, covers_nil, or_false, Nat.sub_zero]
    omega
  have hS := RangeDb.not_acked_of_unset hu
  by_cases hroom : db.HasRoom m pn
  · exact .of_union hwf' hne hroom fun x => by simp [hS', hS]
  · refine .of_evict hwf' hne hroom (fun h => h.1 hu) fun x => ?_
    simp [hS', hS, RangeDb.InLowest, RangeDb.blocks, hu, LastCovers]

/-- A number the database holds leaves it as it is. -/
theorem recordSpec_of_acked (hwf : db.WF m) (hin : db.Acked pn) : db.RecordSpec m pn db := by
  have hne : db.largestRange ≠ unsetPn := fun h => RangeDb.not_acked_of_unset h pn hin
  exact .of_union hwf hne (.inl hin) fun x => ⟨.inl, fun h => h.elim id (· ▸ hin)⟩

/-- `pn = largest_range + 1`: block 0 grows up. -/
theorem recordSpec_next (hwf : db.WF m) (hne : db.largestRange ≠ unsetPn)
    (hpn : pn = db.largestRange + 1) (hlt : pn < unsetPn) :
    db.RecordSpec m pn { db with firstRange := db.firstRange + 1, largestRange := pn } := by
  obtain ⟨hle, hfit⟩ := hwf.fits hne
  have hs : pn - (db.firstRange + 1) = db.largestRange - db.firstRange := by omega
  have hne' : pn ≠ unsetPn := by omega
  refine .of_union ⟨by simpa using hwf.length_le, fun h => absurd h hne',
    fun _ => ⟨by simp only; omega, by simpa only [hs] using hfit⟩⟩ hne'
    (.inr (.inl (.inr ⟨by omega, by simpa [hpn] using RangeDb.acked_largestRange hne⟩))) fun x => ?_
  rw [RangeDb.acked_mk_iff hne', RangeDb.acked_iff hne]
  simp only [hs]
  by_cases hc : Covers (blocksBelow (db.largestRange - db.firstRange) db.ranges) x <;>
    simp only [hc, or_true, or_false, true_or]
  omega

/-- `pn > largest_range + 1`: a new block 0 in front; a full table loses its
lowest block. -/
theorem recordSpec_front (hwf : db.WF m) (hne : db.largestRange ≠ unsetPn)
    (hgt : db.largestRange + 2 ≤ pn) (hpn : pn < unsetPn) :
    db.RecordSpec m pn ⟨pn, 0, insertRange (decide (db.ranges.length = m))
      ⟨pn - db.largestRange - 2, db.firstRange⟩ db.ranges⟩ := by
  obtain ⟨hle, hfit⟩ := hwf.fits hne
  have hs : pn - (pn - db.largestRange - 2) - 2 - db.firstRange = db.largestRange - db.firstRange := by
    omega
  have hF : Fits pn (⟨pn - db.largestRange - 2, db.firstRange⟩ :: db.ranges) :=
    ⟨by simp only; omega, by simpa only [hs] using hfit⟩
  have hB : blocksBelow pn (⟨pn - db.largestRange - 2, db.firstRange⟩ :: db.ranges) = db.blocks := by
    rw [blocksBelow_cons]
    simp only [hs, show pn - (pn - db.largestRange - 2) - 2 = db.largestRange by omega,
      RangeDb.blocks, if_neg hne]
  have hne' : pn ≠ unsetPn := by omega
  have hS' : ∀ x, RangeDb.Acked ⟨pn, 0, insertRange (decide (db.ranges.length = m))
      ⟨pn - db.largestRange - 2, db.firstRange⟩ db.ranges⟩ x ↔
      x = pn ∨ (db.Acked x ∧ ¬ (db.ranges.length = m ∧ db.InLowest x)) := by
    intro x
    rw [RangeDb.acked_mk_iff hne']
    simp only [Nat.sub_zero, covers_insertRange _ hF, hB, decide_eq_true_eq]
    rw [show (pn ≤ x ∧ x ≤ pn) ↔ x = pn by omega]; rfl
  have hwf' : RangeDb.WF m ⟨pn, 0, insertRange (decide (db.ranges.length = m))
      ⟨pn - db.largestRange - 2, db.firstRange⟩ db.ranges⟩ := by
    refine ⟨?_, fun h => absurd h hne', fun _ => ⟨Nat.zero_le _, ?_⟩⟩
    · have := hwf.length_le
      simp only [length_insertRange, decide_eq_true_eq]
      split_ifs <;> omega
    · cases decide (db.ranges.length = m)
      · exact hF
      · exact fits_dropLast _ _ hF
  have habove : ∀ {x}, db.Acked x → x + 2 ≤ pn := fun hx => by have := (hwf.bounds hx).2; omega
  by_cases hroom : db.HasRoom m pn
  · have hfull : db.ranges.length ≠ m := by
      rcases hroom with h | (h | ⟨_, h⟩) | h
      all_goals first | omega | (have ha := habove h; omega)
    exact .of_union hwf' hne' hroom fun x => by
      rw [hS']; simp only [hfull, false_and, not_false_eq_true, and_true]; exact or_comm
  · have hfull := RangeDb.full_of_not_hasRoom hwf hroom
    refine .of_evict hwf' hne' hroom (fun ⟨_, h⟩ => ?_) fun x => ?_
    · have := lowest_le (db.largestRange - db.firstRange) db.ranges
      simp only [RangeDb.smallest] at h; omega
    · rw [hS']
      simp only [hfull, true_and]
      constructor
      · rintro (rfl | ⟨h, hl⟩)
        · exact ⟨.inr rfl, fun hl => by have := habove hl.covers; omega⟩
        · exact ⟨.inl h, hl⟩
      · rintro ⟨h | rfl, hl⟩
        · exact .inr ⟨h, hl⟩
        · exact .inl rfl

/-- Below block 0, a full table ignores a number below its lowest block. -/
theorem recordSpec_tooOld (hwf : db.WF m) (hne : db.largestRange ≠ unsetPn)
    (hfull : db.ranges.length = m) (hlo : pn + 1 < db.smallest) : db.RecordSpec m pn db :=
  ⟨hwf, RangeDb.acked_largestRange hne, fun _ hx => (hwf.bounds hx).2,
    fun h => absurd h (hwf.not_hasRoom hlo hfull), fun _ _ _ _ => Iff.rfl,
    fun _ h => absurd ⟨hne, hlo⟩ h⟩

/-- Below block 0, an `edit` outcome of the lookup loop. -/
theorem recordSpec_edit (hwf : db.WF m) (hne : db.largestRange ≠ unsetPn)
    (hlt : pn < db.largestRange - db.firstRange) {k : Nat} {rs' : List AckRange} {sp : Bool}
    (hlook : lookup (decide (db.ranges.length = m)) pn (db.largestRange - db.firstRange) db.ranges =
      .edit k rs' sp) :
    db.RecordSpec m pn { db with firstRange := db.firstRange + k, ranges := rs' } := by
  obtain ⟨hle, hfit⟩ := hwf.fits hne
  have es := lookup_edit _ pn _ _ hfit hlt hlook
  have hk := es.grow_le
  have he : db.largestRange - (db.firstRange + k) = db.largestRange - db.firstRange - k := by omega
  have hwf' : RangeDb.WF m { db with firstRange := db.firstRange + k, ranges := rs' } := by
    refine ⟨?_, fun h => absurd h hne, fun _ => ⟨by simp only; omega, by simpa only [he] using es.fits⟩⟩
    have := hwf.length_le
    rcases es.length with h | ⟨hf, h⟩
    · exact h.trans this
    · simp only [decide_eq_false_iff_not] at hf; simp only; omega
  set s := db.largestRange - db.firstRange
  set B := blocksBelow s db.ranges
  set full := decide (db.ranges.length = m)
  have hS' : ∀ x, RangeDb.Acked { db with firstRange := db.firstRange + k, ranges := rs' } x ↔
      (s ≤ x ∧ x ≤ db.largestRange) ∨ ((Covers B x ∨ x = pn) ∧
        ¬ (sp = true ∧ full = true ∧ LastCovers B x)) := by
    intro x
    rw [RangeDb.acked_mk_iff hne, ← es.acked x, he]
    by_cases hc : Covers (blocksBelow (s - k) rs') x <;>
      simp only [hc, or_true, or_false]
    omega
  have hS : ∀ x, db.Acked x ↔ (s ≤ x ∧ x ≤ db.largestRange) ∨ Covers B x := RangeDb.acked_iff hne
  by_cases hroom : db.HasRoom m pn
  · have hns : ¬ (sp = true ∧ full = true) := fun ⟨hsp, hfl⟩ => by
      obtain ⟨h1, h2, h3, h4, h5⟩ := es.split_fresh hsp
      have hfl : db.ranges.length = m := of_decide_eq_true hfl
      rcases hroom with h | (h | ⟨_, h⟩) | h
      all_goals first | omega | (rw [hS] at h; rcases h with h | h <;> first | omega | contradiction)
    refine .of_union hwf' hne hroom fun x => ?_
    rw [hS', hS]
    have : ¬ (sp = true ∧ full = true ∧ LastCovers B x) := fun ⟨a, b, _⟩ => hns ⟨a, b⟩
    simp only [this, not_false_eq_true, and_true, or_assoc]
  · have hfull : full = true := decide_eq_true (RangeDb.full_of_not_hasRoom hwf hroom)
    have hsp : sp = true := by
      by_contra hsp
      rcases es.keep_adjacent (by simpa using hsp) hfull with h | h | ⟨h0, h⟩
      · exact hroom (.inr (.inl (.inl ((hS (pn + 1)).2 (.inl ⟨by omega, by omega⟩)))))
      · exact hroom (.inr (.inl (.inl ((hS _).2 (.inr h)))))
      · exact hroom (.inr (.inl (.inr ⟨h0, (hS _).2 (.inr h)⟩)))
    have hL : ∀ x, db.InLowest x ↔ LastCovers B x := fun x => by
      obtain ⟨r, rs, hrs⟩ := List.exists_cons_of_ne_nil (es.split_ne_nil hsp)
      simp only [RangeDb.InLowest, RangeDb.blocks, if_neg hne, B, hrs, blocksBelow_cons, LastCovers,
        List.getLast?_cons_cons]
    refine .of_evict hwf' hne hroom (fun ⟨_, hlo⟩ => ?_) fun x => ?_
    · rw [hfull, lookup_eq_tooOld pn _ _ hfit hlo] at hlook
      cases hlook
    · rw [hS', hS, hL]
      have hB := covers_blocksBelow_bounds _ _ hfit x
      simp only [hsp, hfull, true_and]
      constructor
      · rintro (h | ⟨h, hl⟩)
        · exact ⟨.inl (.inl h), fun hl => by have := hB hl.covers; omega⟩
        · exact ⟨h.imp_left .inr, hl⟩
      · rintro ⟨(h | h) | h, hl⟩
        · exact .inl h
        · exact .inr ⟨.inl h, hl⟩
        · exact .inr ⟨.inr h, hl⟩

/-- Recording a packet number keeps a database well formed and does to its
set of numbers what `RecordSpec` says. -/
theorem RangeDb.record_spec (hwf : db.WF m) (hpn : pn < unsetPn) :
    db.RecordSpec m pn (db.record m pn) := by
  unfold RangeDb.record
  dsimp only
  split_ifs with hu heq hgt h1 hin
  · exact recordSpec_unset hwf hu hpn
  · exact recordSpec_of_acked hwf (heq ▸ RangeDb.acked_largestRange hu)
  · exact recordSpec_next hwf hu (by omega) hpn
  · exact recordSpec_front hwf hu (by omega) hpn
  · exact recordSpec_of_acked hwf ((RangeDb.acked_iff hu _).2 (.inl hin))
  · split
    · next hlook => exact recordSpec_edit hwf hu (by omega) hlook
    · next hlook =>
      obtain ⟨hle, hfit⟩ := hwf.fits hu
      exact recordSpec_of_acked hwf ((RangeDb.acked_iff hu _).2 (.inr (lookup_known _ _ _ _ hlook)))
    · next hlook =>
      obtain ⟨hle, hfit⟩ := hwf.fits hu
      obtain ⟨hfl, hlo⟩ := lookup_tooOld _ _ _ _ hfit (by omega) hlook
      exact recordSpec_tooOld hwf hu (by simpa using hfl) hlo

end Record

/-! ## Reachable databases -/

/-- The databases a context can hold: the empty one, and whatever recording a
packet number or dropping acknowledged numbers makes of one. -/
inductive RangeDb.Reachable (maxRanges : Nat) : RangeDb → Prop
  | empty : RangeDb.Reachable maxRanges RangeDb.empty
  | record {db : RangeDb} (pn : Nat) : pn < 2 ^ 62 → RangeDb.Reachable maxRanges db →
      RangeDb.Reachable maxRanges (db.record maxRanges pn)
  | drop {db : RangeDb} (w pn : Nat) : RangeDb.Reachable maxRanges db →
      RangeDb.Reachable maxRanges (db.dropAckRanges w pn)

/-- Every reachable database is well formed. -/
theorem RangeDb.Reachable.wf {maxRanges : Nat} {db : RangeDb} (h : db.Reachable maxRanges) :
    db.WF maxRanges := by
  induction h with
  | empty => exact RangeDb.wf_empty maxRanges
  | record pn hpn _ ih => exact (RangeDb.record_spec ih (by unfold unsetPn; omega)).wf
  | drop w pn _ ih => exact ih.dropAckRanges w pn

end NjtQuic
