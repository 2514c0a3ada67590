import Lox.Proofs.Decoding
import Lox.RunFile
import Mathlib

/-!
# Files that are no text

A file that is not UTF-8 is refused at the first character that cannot be decoded. If the file ends
inside of that character, this is what is said about it. Everything else is invalid data.
-/

namespace Lox.Utf8

/-! ## The first character that cannot be decoded -/

def IsTailByte (b : UInt8) : Prop := 0x80 ≤ b.toNat ∧ b.toNat ≤ 0xBF

/-- The byte begins a character of several bytes. -/
def IsLeadByte (b : UInt8) : Prop := 0xC0 ≤ b.toNat ∧ b.toNat ≤ 0xF7

instance (b : UInt8) : Decidable (IsTailByte b) := inferInstanceAs (Decidable (_ ∧ _))

instance (b : UInt8) : Decidable (IsLeadByte b) := inferInstanceAs (Decidable (_ ∧ _))

/-- The tails that a lead needs. -/
def tailsOf (b : UInt8) : Nat :=
  if b.toNat ≤ 0xDF then 1 else if b.toNat ≤ 0xEF then 2 else 3

/-- The least code point that needs this many tails. -/
def leastWith : Nat → Nat
  | 0 => 0
  | 1 => 0x80
  | 2 => 0x800
  | _ => 0x10000

/-- The code point of a lead and its tails: a tail has six bits of it, and a lead one bit less for
each tail. -/
def codePoint (b : UInt8) (tails : List UInt8) : Nat := join (b.toNat % 2 ^ (6 - tailsOf b)) tails

/-- The code point is written with too many bytes, is a surrogate, or lies beyond the last one. -/
def Improper (tails n : Nat) : Prop := n < leastWith tails ∨ 0xD800 ≤ n ∧ n ≤ 0xDFFF ∨ 0x10FFFF < n

/-- The bytes end inside of a character. -/
inductive CutShort : List UInt8 → Prop
  | intro (b : UInt8) (tails : List UInt8) (hb : IsLeadByte b) (hlen : tails.length < tailsOf b)
      (htails : ∀ t ∈ tails, IsTailByte t) : CutShort (b :: tails)

/-- The bytes begin with what is no character. -/
inductive Broken : List UInt8 → Prop
  | noLead (b : UInt8) (rest : List UInt8) (hb : IsTailByte b ∨ 0xF8 ≤ b.toNat) :
      Broken (b :: rest)
  | interrupted (b c : UInt8) (tails rest : List UInt8) (hb : IsLeadByte b)
      (hlen : tails.length < tailsOf b) (htails : ∀ t ∈ tails, IsTailByte t)
      (hc : ¬ IsTailByte c) : Broken (b :: (tails ++ c :: rest))
  | improper (b : UInt8) (tails rest : List UInt8) (hb : IsLeadByte b)
      (hlen : tails.length = tailsOf b) (htails : ∀ t ∈ tails, IsTailByte t)
      (hn : Improper (tailsOf b) (codePoint b tails)) : Broken (b :: (tails ++ rest))

theorem isTail_eq_true_iff (b : UInt8) : isTail b.toNat = true ↔ IsTailByte b := by
  rw [isTail_iff]
  unfold IsTailByte
  omega

theorem lead_of_isLeadByte (b : UInt8) (h : IsLeadByte b) :
    lead b.toNat =
      .sequence ⟨b.toNat % 2 ^ (6 - tailsOf b), tailsOf b, leastWith (tailsOf b)⟩ := by
  rw [lead_eq_sequence_iff]
  unfold IsLeadByte at h
  unfold tailsOf leastWith
  split_ifs <;> simp <;> omega

theorem lead_eq_invalid_iff (b : UInt8) :
    lead b.toNat = .invalid ↔ IsTailByte b ∨ 0xF8 ≤ b.toNat := by
  unfold lead IsTailByte
  split_ifs <;> simp <;> omega

theorem isLeadByte_iff (b : UInt8) : IsLeadByte b ↔ ∃ p, lead b.toNat = .sequence p := by
  constructor
  · intro h
    exact ⟨_, lead_of_isLeadByte b h⟩
  · rintro ⟨p, h⟩
    rw [lead_eq_sequence_iff] at h
    unfold IsLeadByte
    omega

theorem improper_iff (tails n : Nat) :
    Improper tails n ↔ ¬ (leastWith tails ≤ n ∧ n.isValidChar) := by
  unfold Improper Nat.isValidChar
  omega

theorem decodeFrom_pending (p : Pending) (tails rest : List UInt8)
    (htails : ∀ t ∈ tails, IsTailByte t) (hlen : tails.length < p.needed) :
    decodeFrom (some p) (tails ++ rest) =
      decodeFrom (some ⟨join p.bits tails, p.needed - tails.length, p.least⟩) rest := by
  induction tails generalizing p with
  | nil => rfl
  | cons t tails ih =>
    obtain ⟨ht, htails⟩ := List.forall_mem_cons.mp htails
    rw [← isTail_eq_true_iff] at ht
    rw [List.length_cons] at hlen
    have hmore : ¬ p.needed ≤ 1 := by omega
    rw [List.cons_append, decodeFrom]
    simp only [ht, hmore, Bool.not_true, Bool.false_eq_true, if_false]
    rw [ih _ htails (by simp; omega), join_cons, List.length_cons]
    simp only
    congr 3
    omega

theorem decodeFrom_last (p : Pending) (tails rest : List UInt8) (hpos : 0 < p.needed)
    (htails : ∀ t ∈ tails, IsTailByte t) (hlen : tails.length = p.needed) :
    decodeFrom (some p) (tails ++ rest) =
      if p.least ≤ join p.bits tails ∧ (join p.bits tails).isValidChar then
        (decodeFrom none rest).map (Char.ofNat (join p.bits tails) :: ·)
      else .error .invalidData := by
  have hne : tails ≠ [] := by
    rintro rfl
    rw [List.length_nil] at hlen
    omega
  obtain ⟨front, t, rfl⟩ := (List.eq_nil_or_concat' tails).resolve_left hne
  rw [List.length_append, List.length_singleton] at hlen
  have ht := (isTail_eq_true_iff t).mpr (htails t (by simp))
  have hlast : p.needed - front.length ≤ 1 := by omega
  have hjoin : join p.bits (front ++ [t]) = join p.bits front * 0x40 + t.toNat % 0x40 := by
    simp [join]
  rw [List.append_assoc, decodeFrom_pending p front _ (fun u hu => htails u (by simp [hu]))
    (by omega), List.singleton_append, decodeFrom, hjoin]
  simp only [ht, hlast, Bool.not_true, Bool.false_eq_true, if_false, if_true]

theorem decodeFrom_lead (b : UInt8) (bs : List UInt8) (h : IsLeadByte b) :
    decodeFrom none (b :: bs) =
      decodeFrom
        (some ⟨b.toNat % 2 ^ (6 - tailsOf b), tailsOf b, leastWith (tailsOf b)⟩) bs := by
  simp only [decodeFrom, lead_of_isLeadByte b h]

theorem tailsOf_pos (b : UInt8) : 0 < tailsOf b := by
  unfold tailsOf
  split_ifs <;> omega

theorem decodeFrom_cutShort (bs : List UInt8) (h : CutShort bs) :
    decodeFrom none bs = .error .unexpectedEof := by
  obtain ⟨b, tails, hb, hlen, htails⟩ := h
  rw [decodeFrom_lead b tails hb, ← List.append_nil tails, decodeFrom_pending _ _ _ htails hlen]
  rfl

theorem decodeFrom_broken (bs : List UInt8) (h : Broken bs) :
    decodeFrom none bs = .error .invalidData := by
  cases h with
  | noLead b rest hb => simp only [decodeFrom, (lead_eq_invalid_iff b).mpr hb]
  | interrupted b c tails rest hb hlen htails hc =>
    rw [← isTail_eq_true_iff] at hc
    rw [decodeFrom_lead b _ hb, decodeFrom_pending _ tails _ htails hlen, decodeFrom, if_pos]
    simp [hc]
  | improper b tails rest hb hlen htails hn =>
    rw [decodeFrom_lead b _ hb, decodeFrom_last _ tails _ (tailsOf_pos b) htails hlen, if_neg]
    exact (improper_iff _ _).mp hn

theorem exists_upTo (n : Nat) (bs : List UInt8) :
    ∃ tails rest, bs = tails ++ rest ∧ (∀ t ∈ tails, IsTailByte t) ∧
      (tails.length = n ∨
        tails.length < n ∧ (rest = [] ∨ ∃ c later, rest = c :: later ∧ ¬ IsTailByte c)) := by
  induction n generalizing bs with
  | zero => exact ⟨[], bs, rfl, by simp, Or.inl rfl⟩
  | succ n ih =>
    cases bs with
    | nil => exact ⟨[], [], rfl, by simp, Or.inr ⟨by simp, Or.inl rfl⟩⟩
    | cons c bs =>
      by_cases hc : IsTailByte c
      · obtain ⟨tails, rest, rfl, htails, hlen⟩ := ih bs
        refine ⟨c :: tails, rest, rfl, List.forall_mem_cons.mpr ⟨hc, htails⟩, ?_⟩
        simpa using hlen
      · exact ⟨[], c :: bs, rfl, by simp, Or.inr ⟨by simp, Or.inr ⟨c, bs, rfl, hc⟩⟩⟩

theorem spells_or_broken (b : UInt8) (tails rest : List UInt8) (hb : IsLeadByte b)
    (hlen : tails.length = tailsOf b) (htails : ∀ t ∈ tails, IsTailByte t) :
    (∃ c, Spells b tails c) ∨ Broken (b :: (tails ++ rest)) := by
  by_cases hn : Improper (tailsOf b) (codePoint b tails)
  · exact Or.inr (.improper b tails rest hb hlen htails hn)
  · rw [improper_iff, not_not] at hn
    have hc := toNat_charOfNat _ hn.2
    refine Or.inl ⟨Char.ofNat (codePoint b tails), Or.inr ⟨_, lead_of_isLeadByte b hb, hlen, ?_⟩⟩
    simp only [isTail_eq_true_iff]
    rw [hc]
    exact ⟨htails, hn.1, rfl⟩

/-- Some bytes begin with a character, end inside of one, or begin with what is none. -/
theorem first_cases (b : UInt8) (bs : List UInt8) :
    (∃ tails rest c, bs = tails ++ rest ∧ Spells b tails c) ∨ CutShort (b :: bs) ∨
      Broken (b :: bs) := by
  cases hlead : lead b.toNat with
  | single =>
    have hlt := (lead_eq_single_iff _).mp hlead
    refine Or.inl ⟨[], bs, Char.ofNat b.toNat, rfl, Or.inl ⟨hlead, rfl, ?_⟩⟩
    apply toNat_charOfNat
    left
    omega
  | invalid => exact Or.inr (Or.inr (.noLead b bs ((lead_eq_invalid_iff b).mp hlead)))
  | sequence p =>
    have hb := (isLeadByte_iff b).mpr ⟨p, hlead⟩
    obtain ⟨tails, rest, rfl, htails, hlen | ⟨hlen, rfl | ⟨c, later, rfl, hc⟩⟩⟩ :=
      exists_upTo (tailsOf b) bs
    · rcases spells_or_broken b tails rest hb hlen htails with ⟨c, hc⟩ | hbroken
      · exact Or.inl ⟨tails, rest, c, rfl, hc⟩
      · exact Or.inr (Or.inr hbroken)
    · rw [List.append_nil]
      exact Or.inr (Or.inl ⟨b, tails, hb, hlen, htails⟩)
    · exact Or.inr (Or.inr (.interrupted b c tails later hb hlen htails hc))

/-! ## Whole files -/

theorem decodeFrom_encode_append (cs : List Char) (rest : List UInt8) :
    decodeFrom none (cs.flatMap String.utf8EncodeChar ++ rest) =
      (decodeFrom none rest).map (cs ++ ·) := by
  induction cs with
  | nil => cases h : decodeFrom none rest <;> simp [h, Except.map]
  | cons c cs ih =>
    obtain ⟨b, tails, hencode, hspells⟩ := spells_encodeChar c
    rw [List.flatMap_cons, hencode, List.append_assoc, decodeFrom_spells b tails _ c hspells, ih]
    cases decodeFrom none rest <;> rfl

theorem exists_undecodable (n : Nat) (bs : List UInt8) (hn : bs.length ≤ n) :
    ∃ (cs : List Char) (rest : List UInt8), bs = cs.flatMap String.utf8EncodeChar ++ rest ∧
      (rest = [] ∨ CutShort rest ∨ Broken rest) := by
  induction n generalizing bs with
  | zero =>
    obtain rfl : bs = [] := List.eq_nil_of_length_eq_zero (by omega)
    exact ⟨[], [], rfl, Or.inl rfl⟩
  | succ n ih =>
    cases bs with
    | nil => exact ⟨[], [], rfl, Or.inl rfl⟩
    | cons b bs =>
      rcases first_cases b bs with ⟨tails, rest, c, rfl, hspells⟩ | hbad
      · simp only [List.length_cons, List.length_append] at hn
        obtain ⟨cs, later, rfl, hlater⟩ := ih rest (by omega)
        refine ⟨c :: cs, later, ?_, hlater⟩
        rw [List.flatMap_cons, encodeChar_of_spells b tails c hspells]
        simp
      · exact ⟨[], b :: bs, rfl, Or.inr hbad⟩

/-- A text, and then a character that the end of the bytes cuts short. -/
def Truncated (bytes : List UInt8) : Prop := ∃ s rest, bytes = encode s ++ rest ∧ CutShort rest

/-- A text, and then what is no character. -/
def Garbled (bytes : List UInt8) : Prop := ∃ s rest, bytes = encode s ++ rest ∧ Broken rest

theorem decode_append (s : String) (rest : List UInt8) (cause : IoCause)
    (h : decodeFrom none rest = .error cause) : decode (encode s ++ rest) = .error cause := by
  unfold decode encode
  rw [decodeFrom_encode_append, h]
  rfl

theorem decode_truncated (bytes : List UInt8) (h : Truncated bytes) :
    decode bytes = .error .unexpectedEof := by
  obtain ⟨s, rest, rfl, hrest⟩ := h
  exact decode_append s rest _ (decodeFrom_cutShort rest hrest)

theorem decode_garbled (bytes : List UInt8) (h : Garbled bytes) :
    decode bytes = .error .invalidData := by
  obtain ⟨s, rest, rfl, hrest⟩ := h
  exact decode_append s rest _ (decodeFrom_broken rest hrest)

theorem decode_cases (bytes : List UInt8) :
    (∃ s, decode bytes = .ok s) ∨
      Truncated bytes ∧ decode bytes = .error .unexpectedEof ∨
      Garbled bytes ∧ decode bytes = .error .invalidData := by
  obtain ⟨cs, rest, hsplit, hrest⟩ := exists_undecodable _ bytes (Nat.le_refl _)
  have hencode : cs.flatMap String.utf8EncodeChar = encode (String.ofList cs) := by simp [encode]
  rw [hencode] at hsplit
  rcases hrest with rfl | hcut | hbroken
  · rw [List.append_nil] at hsplit
    exact Or.inl ⟨_, (decode_eq_ok_iff bytes _).mpr hsplit⟩
  · have htruncated : Truncated bytes := ⟨_, rest, hsplit, hcut⟩
    exact Or.inr (Or.inl ⟨htruncated, decode_truncated bytes htruncated⟩)
  · have hgarbled : Garbled bytes := ⟨_, rest, hsplit, hbroken⟩
    exact Or.inr (Or.inr ⟨hgarbled, decode_garbled bytes hgarbled⟩)

theorem decode_eq_unexpectedEof_iff (bytes : List UInt8) :
    decode bytes = .error .unexpectedEof ↔ Truncated bytes := by
  refine ⟨?_, decode_truncated bytes⟩
  intro h
  rcases decode_cases bytes with ⟨s, hs⟩ | ⟨htruncated, -⟩ | ⟨-, hinvalid⟩
  · cases hs.symm.trans h
  · exact htruncated
  · cases hinvalid.symm.trans h

theorem decode_eq_invalidData_iff (bytes : List UInt8) :
    decode bytes = .error .invalidData ↔ Garbled bytes := by
  refine ⟨?_, decode_garbled bytes⟩
  intro h
  rcases decode_cases bytes with ⟨s, hs⟩ | ⟨-, heof⟩ | ⟨hgarbled, -⟩
  · cases hs.symm.trans h
  · cases heof.symm.trans h
  · exact hgarbled

theorem garbled_iff (bytes : List UInt8) :
    Garbled bytes ↔ (∀ s, bytes ≠ encode s) ∧ ¬ Truncated bytes := by
  rw [← decode_eq_invalidData_iff, ← decode_eq_unexpectedEof_iff]
  simp only [ne_eq, ← decode_eq_ok_iff]
  rcases decode_cases bytes with ⟨s, hs⟩ | ⟨-, heof⟩ | ⟨-, hinvalid⟩
  · simp [hs]
  · simp [heof]
  · simp [hinvalid]

end Lox.Utf8

namespace Lox.Folder

/-- **A file is read as UTF-8.** A file that can be read has a text exactly if its bytes are the
UTF-8 form of that text. A file that ends inside of a character is told from all others: those have
in them what is no character at all. There is no other answer. -/
theorem readText_reads_utf8 (f : Folder) (path : String) (bytes : List UInt8)
    (h : f.read path = .ok bytes) :
    (∀ s, f.readText path = .ok s ↔ bytes = Utf8.encode s) ∧
      (f.readText path = .error .unexpectedEof ↔ Utf8.Truncated bytes) ∧
      (f.readText path = .error .invalidData ↔ Utf8.Garbled bytes) ∧
      (Utf8.Garbled bytes ↔ (∀ s, bytes ≠ Utf8.encode s) ∧ ¬ Utf8.Truncated bytes) ∧
      ∀ cause, f.readText path = .error cause →
        cause = .unexpectedEof ∨ cause = .invalidData := by
  have hread : f.readText path = Utf8.decode bytes := by
    unfold readText
    rw [h]
    rfl
  rw [hread]
  refine ⟨Utf8.decode_eq_ok_iff bytes, Utf8.decode_eq_unexpectedEof_iff bytes,
    Utf8.decode_eq_invalidData_iff bytes, Utf8.garbled_iff bytes, ?_⟩
  intro cause hcause
  rcases Utf8.decode_cases bytes with ⟨s, hs⟩ | ⟨-, heof⟩ | ⟨-, hinvalid⟩
  · cases hs.symm.trans hcause
  · cases heof.symm.trans hcause
    exact Or.inl rfl
  · cases hinvalid.symm.trans hcause
    exact Or.inr rfl

theorem readText_reads_utf8_half_euro :
    let bytes : List UInt8 := [0x61, 0xE2, 0x82]
    let f : Folder := ⟨[(["f"], .file bytes)]⟩
    f.read "f" = .ok bytes ∧ Utf8.Truncated bytes ∧
      f.readText "f" = .error .unexpectedEof := by
  -- The euro sign lacks its last byte.
  intro bytes f
  have hread : f.read "f" = .ok bytes := by cbv
  have hcut : Utf8.Truncated bytes := by
    have htail : Utf8.IsTailByte 0x82 := by decide
    exact ⟨"a", [0xE2, 0x82], rfl, .intro 0xE2 [0x82] (by decide) (by decide) (by simpa using htail)⟩
  exact ⟨hread, hcut, (readText_reads_utf8 f "f" bytes hread).2.1.mpr hcut⟩

end Lox.Folder
