import Mathlib.Data.List.TakeWhile
import RemoteWorkspace.Model.Release

/-!
# Reading an archive record by record

A size field is read up to the first character that is no octal digit, and may be negative or no
number at all; and what is sliced is never compared with what there is. So the reader is exact
where the fields up to the member are blank or octal numbers and the member is complete, and
where it comes to an end without the member. A field that is not leads it somewhere else, back
to where it was before, or to a member it makes up.
-/

set_option autoImplicit false

namespace RemoteWorkspace.Analysis.ArchiveReader

open RemoteWorkspace.Computation RemoteWorkspace.Model.Release

variable {tar : Bytes} {member : String}

/-! ### Size fields -/

/-- The digits of an octal number. -/
def Octal (digits : List Char) : Prop :=
  digits ≠ [] ∧ digits.all (fun c => '0' ≤ c ∧ c ≤ '7') = true

instance (digits : List Char) : Decidable (Octal digits) := inferInstanceAs (Decidable (_ ∧ _))

/-- What they count. -/
def octalValue (digits : List Char) : ℕ :=
  digits.foldl (fun n c => n * 8 + (c.toNat - '0'.toNat)) 0

/-- A text without its sign. -/
def unsigned : List Char → List Char
  | '-' :: digits => digits
  | '+' :: digits => digits
  | digits => digits

/-- The octal number that a text is, with a sign or without one, if it is not negative. -/
def octalNumber (text : List Char) : Option ℕ :=
  if Octal (unsigned text) ∧ (text.head? = some '-' → octalValue (unsigned text) = 0) then
    some (octalValue (unsigned text))
  else none

/-- The size that a header declares: none in a blank field. -/
def declaredSize (header : Bytes) : Option ℕ :=
  if headerText header 124 12 = [] then some 0 else octalNumber (headerText header 124 12)

/-- The value of octal digits, as it is counted in integers. -/
theorem foldl_octal (digits : List Char) (n : ℕ) :
    digits.foldl (fun (n : ℤ) c => n * 8 + (c.toNat - '0'.toNat : ℕ)) n =
      (digits.foldl (fun n c => n * 8 + (c.toNat - '0'.toNat)) n : ℕ) := by
  induction digits generalizing n with
  | nil => rfl
  | cons c digits ih =>
    rw [List.foldl_cons, List.foldl_cons, ← ih]
    congr 1

/-- Octal digits are all read. -/
theorem takeWhile_octal {digits : List Char} (h : Octal digits) :
    digits.takeWhile (fun c => '0' ≤ c ∧ c ≤ '7') = digits :=
  List.takeWhile_eq_self_iff.mpr fun c hc => List.all_eq_true.mp h.2 c hc

/-- A text that begins with no sign is left as it is. -/
theorem unsigned_self {text : List Char} (hminus : ∀ digits, text ≠ '-' :: digits)
    (hplus : ∀ digits, text ≠ '+' :: digits) : unsigned text = text := by
  unfold unsigned
  split
  · exact absurd rfl (hminus _)
  · exact absurd rfl (hplus _)
  · rfl

/-- What is read of a text: the digits it begins with behind its sign. -/
theorem parseOctal_eq (text : List Char) :
    parseOctal text =
      let digits := (unsigned text).takeWhile fun c => '0' ≤ c ∧ c ≤ '7'
      if digits = [] then none
      else
        some (if text.head? = some '-' then -(octalValue digits : ℤ) else octalValue digits) := by
  unfold parseOctal octalValue
  simp only [← foldl_octal]
  split
  · rfl
  · rfl
  · rename_i hminus hplus
    rw [unsigned_self (fun digits h => hminus digits h) fun digits h => hplus digits h]
    rfl

/-- A text that is an octal number is read as that number. -/
theorem parseOctal_number {text : List Char} {n : ℕ} (h : octalNumber text = some n) :
    parseOctal text = some (n : ℤ) := by
  unfold octalNumber at h
  obtain ⟨⟨hoctal, hminus⟩, heq⟩ := Option.ite_none_right_eq_some.mp h
  have hvalue : octalValue (unsigned text) = n := Option.some.inj heq
  rw [parseOctal_eq]
  simp only [takeWhile_octal hoctal, if_neg hoctal.1]
  by_cases hhead : text.head? = some '-'
  · rw [if_pos hhead, hminus hhead]
    rw [hminus hhead] at hvalue
    subst hvalue
    rfl
  · rw [if_neg hhead, hvalue]

/-- A declared size is the one that is read. -/
theorem headerSize_declared {header : Bytes} {n : ℕ} (h : declaredSize header = some n) :
    headerSize header = some (n : ℤ) := by
  unfold declaredSize at h
  unfold headerSize
  by_cases hblank : headerText header 124 12 = []
  · rw [if_pos hblank] at h
    obtain rfl := Option.some.inj h
    rw [hblank]
    rfl
  · rw [if_neg hblank] at h
    simp only [if_neg hblank]
    exact parseOctal_number h

/-! ### What an archive holds -/

/-- The record at an offset has a header, which is not all zeros. -/
def HasHeader (tar : Bytes) (offset : ℤ) : Prop :=
  offset + tarBlock ≤ tar.length ∧ (headerAt tar offset).all (· = 0) = false

/-- From an offset on, the member comes behind records that are skipped by the sizes they
declare, and these are its bytes: as many as its header declares. -/
inductive Holds (tar : Bytes) (member : String) : ℕ → Bytes → Prop
  | found {offset size : ℕ} (hheader : HasHeader tar offset)
      (hmember : isMember (headerAt tar offset) member = true)
      (hsize : declaredSize (headerAt tar offset) = some size)
      (hdata : offset + 512 + size ≤ tar.length) :
      Holds tar member offset ((tar.drop (offset + 512)).take size)
  | next {offset size : ℕ} {bytes : Bytes} (hheader : HasHeader tar offset)
      (hother : isMember (headerAt tar offset) member = false)
      (hsize : declaredSize (headerAt tar offset) = some size)
      (hrest : Holds tar member (offset + 512 + (size + 511) / 512 * 512) bytes) :
      Holds tar member offset bytes

/-- From an offset on, behind records that are skipped by the sizes they declare and before the
member was found, comes a record that declares no size or is truncated. -/
inductive Broken (tar : Bytes) (member : String) : ℕ → Prop
  | here {offset : ℕ} (hheader : HasHeader tar offset)
      (hbad : ∀ size, declaredSize (headerAt tar offset) = some size →
        tar.length < offset + 512 + size) : Broken tar member offset
  | next {offset size : ℕ} (hheader : HasHeader tar offset)
      (hother : isMember (headerAt tar offset) member = false)
      (hsize : declaredSize (headerAt tar offset) = some size)
      (hrest : Broken tar member (offset + 512 + (size + 511) / 512 * 512)) :
      Broken tar member offset

/-- The reader is exact: it ends, what it returns is what the archive holds, and where a record
is broken it throws. -/
structure Exact (tar : Bytes) (member : String) : Prop where
  ends : ∃ steps outcome, archiveLoop tar member steps 0 = some outcome
  complete : ∀ steps bytes, archiveLoop tar member steps 0 = some (some bytes) →
    Holds tar member 0 bytes
  throws : Broken tar member 0 → ∀ steps outcome,
    archiveLoop tar member steps 0 = some outcome → outcome = none

/-- By the numbers at the beginning of their size fields, the records from an offset on lead to
an end, which is a record without such a number, a header of zeros, or the end of the buffer; and
none of them is the member's. -/
inductive Lost (tar : Bytes) (member : String) : ℤ → Prop
  | ended {offset : ℤ} (hend : ¬ HasHeader tar offset) : Lost tar member offset
  | unread {offset : ℤ} (hheader : HasHeader tar offset)
      (hother : isMember (headerAt tar offset) member = false)
      (hsize : headerSize (headerAt tar offset) = none) : Lost tar member offset
  | next {offset size : ℤ} (hheader : HasHeader tar offset)
      (hother : isMember (headerAt tar offset) member = false)
      (hsize : headerSize (headerAt tar offset) = some size)
      (hrest : Lost tar member (nextOffset offset size)) : Lost tar member offset

/-! ### The loop -/

/-- An end. -/
theorem archiveLoop_over {offset : ℤ} (h : ¬ HasHeader tar offset) (steps : ℕ) :
    archiveLoop tar member (steps + 1) offset = some none := by
  rw [archiveLoop]
  by_cases hinside : offset + tarBlock ≤ tar.length
  · rw [if_pos hinside]
    have hzeros : (headerAt tar offset).all (· = 0) = true := by
      by_contra hnot
      exact h ⟨hinside, Bool.not_eq_true _ ▸ hnot⟩
    exact if_pos hzeros
  · rw [if_neg hinside]

/-- A record that is the member's. -/
theorem archiveLoop_member {offset : ℤ} (h : HasHeader tar offset)
    (hmember : isMember (headerAt tar offset) member = true) (steps : ℕ) :
    archiveLoop tar member (steps + 1) offset = some (some (subarray tar (offset + tarBlock)
      ((headerSize (headerAt tar offset)).elim 0 (offset + tarBlock + ·)))) := by
  rw [archiveLoop, if_pos h.1]
  simp only [h.2, hmember, Bool.false_eq_true, if_false, if_true]

/-- A record that is not. -/
theorem archiveLoop_other {offset : ℤ} (h : HasHeader tar offset)
    (hother : isMember (headerAt tar offset) member = false) (steps : ℕ) :
    archiveLoop tar member (steps + 1) offset =
      (headerSize (headerAt tar offset)).elim (some none) fun size =>
        archiveLoop tar member steps (nextOffset offset size) := by
  rw [archiveLoop, if_pos h.1]
  simp only [h.2, hother, Bool.false_eq_true, if_false]
  cases headerSize (headerAt tar offset) <;> rfl

/-- A walk that has come to its end is not changed by more steps. -/
theorem archiveLoop_mono {steps : ℕ} {offset : ℤ} {outcome : Option Bytes}
    (h : archiveLoop tar member steps offset = some outcome) (more : ℕ) :
    archiveLoop tar member (steps + more) offset = some outcome := by
  induction steps generalizing offset with
  | zero => cases h
  | succ steps ih =>
    rw [Nat.add_right_comm]
    by_cases hheader : HasHeader tar offset
    · cases hmember : isMember (headerAt tar offset) member with
      | true =>
        rw [archiveLoop_member hheader hmember] at h ⊢
        exact h
      | false =>
        rw [archiveLoop_other hheader hmember] at h ⊢
        cases hsize : headerSize (headerAt tar offset) with
        | none =>
          rw [hsize] at h
          exact h
        | some size =>
          rw [hsize] at h
          exact ih h
    · rw [archiveLoop_over hheader] at h ⊢
      exact h

/-- So it has one outcome. -/
theorem archiveLoop_agree {steps steps' : ℕ} {offset : ℤ} {a b : Option Bytes}
    (ha : archiveLoop tar member steps offset = some a)
    (hb : archiveLoop tar member steps' offset = some b) : a = b := by
  have hsame := archiveLoop_mono ha steps'
  rw [Nat.add_comm, archiveLoop_mono hb steps] at hsame
  exact (Option.some.inj hsame).symm

/-- The walk that `archiveMember` takes. -/
theorem findMember_eq (steps : ℕ) (offset : ℤ) :
    findMember tar member steps offset = (archiveLoop tar member steps offset).join := by
  induction steps generalizing offset with
  | zero => rfl
  | succ steps ih =>
    rw [findMember, archiveLoop]
    by_cases hinside : offset + tarBlock ≤ tar.length
    · rw [if_pos hinside, if_pos hinside]
      change (if (headerAt tar offset).all (· = 0) = true then none else _) = _
      by_cases hzeros : (headerAt tar offset).all (· = 0) = true
      · rw [if_pos hzeros]
        simp only [if_pos hzeros]
        rfl
      · rw [if_neg hzeros]
        simp only [if_neg hzeros]
        have hregular : (((headerAt tar offset).getD 156 0 = '0'.toUInt8 ∨
            (headerAt tar offset).getD 156 0 = 0) ∧
            ((headerText (headerAt tar offset) 0 100).splitOn '/').getLast? = some member.toList) ↔
            isMember (headerAt tar offset) member = true := by
          unfold isMember
          exact decide_eq_true_iff.symm
        have hfold : subarray tar offset (offset + tarBlock) = headerAt tar offset := rfl
        simp only [hfold, hregular]
        cases hmember : isMember (headerAt tar offset) member with
        | true =>
          cases hsize : headerSize (headerAt tar offset) with
          | none =>
            -- nothing is before the beginning of the buffer
            have hempty : subarray tar (offset + tarBlock) 0 = [] := List.drop_nil
            simp only [if_true, Option.elim_none, hempty]
            rfl
          | some size => rfl
        | false =>
          cases hsize : headerSize (headerAt tar offset) with
          | none => rfl
          | some size => exact ih (nextOffset offset size)
    · rw [if_neg hinside, if_neg hinside]
      rfl

/-! ### Where it leads -/

/-- The record after one that declares its size. -/
theorem nextOffset_declared (offset size : ℕ) :
    nextOffset offset size = ((offset + 512 + (size + 511) / 512 * 512 : ℕ) : ℤ) := by
  unfold nextOffset tarBlock
  omega

/-- A slice between positions that are not negative. -/
theorem subarray_cast (bytes : Bytes) (start stop : ℕ) :
    subarray bytes start stop = (bytes.take stop).drop start := by
  unfold subarray
  simp only [Int.toNat_natCast]
  rw [if_neg (Int.not_lt.mpr (Int.natCast_nonneg _)),
    if_neg (Int.not_lt.mpr (Int.natCast_nonneg _))]

/-- Data that is there is sliced whole. -/
theorem subarray_data (tar : Bytes) (offset size : ℕ) :
    subarray tar (offset + tarBlock) (offset + tarBlock + size) =
      (tar.drop (offset + 512)).take size := by
  have hstart : (offset + tarBlock : ℤ) = (offset + 512 : ℕ) := by
    unfold tarBlock
    omega
  have hstop : (offset + tarBlock + size : ℤ) = (offset + 512 + size : ℕ) := by
    unfold tarBlock
    omega
  rw [hstop, hstart, subarray_cast, List.drop_take, Nat.add_sub_cancel_left]

theorem Holds.hasHeader {offset : ℕ} {bytes : Bytes} (h : Holds tar member offset bytes) :
    HasHeader tar offset := by
  cases h with
  | found hheader _ _ _ => exact hheader
  | next hheader _ _ _ => exact hheader

/-- A member that is there is found. -/
theorem Holds.read {offset : ℕ} {bytes : Bytes} (h : Holds tar member offset bytes) :
    ∃ steps, archiveLoop tar member steps offset = some (some bytes) := by
  induction h with
  | @found offset size hheader hmember hsize hdata =>
    refine ⟨1, ?_⟩
    rw [archiveLoop_member hheader hmember, headerSize_declared hsize, Option.elim_some,
      subarray_data]
  | @next offset size bytes hheader hother hsize hrest ih =>
    obtain ⟨steps, hsteps⟩ := ih
    refine ⟨steps + 1, ?_⟩
    rw [archiveLoop_other hheader hother, headerSize_declared hsize, Option.elim_some,
      nextOffset_declared, hsteps]

/-- No record is broken before a member that is there, nor is it itself. -/
theorem Holds.not_broken {offset : ℕ} {bytes : Bytes} (h : Holds tar member offset bytes) :
    ¬ Broken tar member offset := by
  induction h with
  | found hheader hmember hsize hdata =>
    intro hbroken
    cases hbroken with
    | here _ hbad => exact absurd (hbad _ hsize) (not_lt.mpr hdata)
    | next _ hother _ _ => exact absurd hmember (Bool.not_eq_true _ ▸ hother)
  | @next offset size bytes hheader hother hsize hrest ih =>
    intro hbroken
    cases hbroken with
    | here _ hbad =>
      -- a header still follows the record's data
      have hshort := hbad _ hsize
      have hbehind := hrest.hasHeader.1
      unfold tarBlock at hbehind
      omega
    | next _ _ hsize' hrest' =>
      obtain rfl := Option.some.inj (hsize.symm.trans hsize')
      exact ih hrest'

/-- A reader that is lost throws. -/
theorem Lost.throws {offset : ℤ} (h : Lost tar member offset) :
    ∃ steps, archiveLoop tar member steps offset = some none := by
  induction h with
  | ended hend => exact ⟨1, archiveLoop_over hend 0⟩
  | unread hheader hother hsize =>
    refine ⟨1, ?_⟩
    rw [archiveLoop_other hheader hother, hsize, Option.elim_none]
  | next hheader hother hsize hrest ih =>
    obtain ⟨steps, hsteps⟩ := ih
    refine ⟨steps + 1, ?_⟩
    rw [archiveLoop_other hheader hother, hsize, Option.elim_some, hsteps]

/-- And one that throws is lost. -/
theorem Lost.of_throws {steps : ℕ} {offset : ℤ}
    (h : archiveLoop tar member steps offset = some none) : Lost tar member offset := by
  induction steps generalizing offset with
  | zero => cases h
  | succ steps ih =>
    by_cases hheader : HasHeader tar offset
    · cases hmember : isMember (headerAt tar offset) member with
      | true =>
        rw [archiveLoop_member hheader hmember] at h
        cases h
      | false =>
        rw [archiveLoop_other hheader hmember] at h
        cases hsize : headerSize (headerAt tar offset) with
        | none => exact Lost.unread hheader hmember hsize
        | some size =>
          rw [hsize] at h
          exact Lost.next hheader hmember hsize (ih h)
    · exact Lost.ended hheader

/-- The reader is exact on the archives that hold the member whole behind records of declared
sizes, and on those through which it finds an end. -/
theorem exact_iff (tar : Bytes) (member : String) :
    Exact tar member ↔ (∃ bytes, Holds tar member 0 bytes) ∨ Lost tar member 0 := by
  constructor
  · intro h
    obtain ⟨steps, outcome, hsteps⟩ := h.ends
    cases outcome with
    | none => exact Or.inr (Lost.of_throws hsteps)
    | some bytes => exact Or.inl ⟨bytes, h.complete steps bytes hsteps⟩
  · intro h
    cases h with
    | inl hholds =>
      obtain ⟨bytes, hbytes⟩ := hholds
      obtain ⟨steps, hsteps⟩ := hbytes.read
      refine ⟨⟨steps, some bytes, hsteps⟩, ?_, ?_⟩
      · intro steps' bytes' hsteps'
        obtain rfl := Option.some.inj (archiveLoop_agree hsteps' hsteps)
        exact hbytes
      · intro hbroken
        exact absurd hbroken hbytes.not_broken
    | inr hlost =>
      obtain ⟨steps, hsteps⟩ := hlost.throws
      refine ⟨⟨steps, none, hsteps⟩, ?_, ?_⟩
      · intro steps' bytes' hsteps'
        cases archiveLoop_agree hsteps' hsteps
      · intro _ steps' outcome hsteps'
        exact archiveLoop_agree hsteps' hsteps

/-! ### Archives it fails on -/

/-- A header of a regular file with these bytes in its name and size fields. -/
def regularHeader (name size : Bytes) : Bytes :=
  name ++ List.replicate (124 - name.length) 0 ++ size ++ List.replicate (388 - size.length) 0

/-- A record named `a` whose size is `-1000`, which leads back to the record itself. -/
def endless : Bytes := regularHeader [97] [45, 49, 48, 48, 48]

/-- A record named `m` that declares one byte, and ends behind its header. -/
def truncated : Bytes := regularHeader [109] [49]

theorem endless_loop (steps : ℕ) : archiveLoop endless "m" steps 0 = none := by
  induction steps with
  | zero => rfl
  | succ steps ih =>
    have hheader : HasHeader endless 0 := ⟨by decide +kernel, by decide +kernel⟩
    have hother : isMember (headerAt endless 0) "m" = false := by decide +kernel
    have hsize : headerSize (headerAt endless 0) = some (-512) := by decide +kernel
    have hback : nextOffset 0 (-512) = 0 := by decide
    rw [archiveLoop_other hheader hother, hsize, Option.elim_some, hback, ih]

theorem truncated_loop : archiveLoop truncated "m" 1 0 = some (some []) := by
  decide +kernel

theorem truncated_broken : Broken truncated "m" 0 := by
  have hsize : declaredSize (headerAt truncated 0) = some 1 := by decide +kernel
  refine Broken.here ⟨by decide +kernel, by decide +kernel⟩ ?_
  intro size hdeclared
  obtain rfl := Option.some.inj (hsize.symm.trans hdeclared)
  decide +kernel

theorem reader_not_exact : ¬ Exact endless "m" ∧ ¬ Exact truncated "m" := by
  constructor
  · intro h
    obtain ⟨steps, outcome, hsteps⟩ := h.ends
    rw [endless_loop] at hsteps
    cases hsteps
  · intro h
    have hnone := h.throws truncated_broken 1 _ truncated_loop
    cases hnone

end RemoteWorkspace.Analysis.ArchiveReader
