import Lox.Utf8
import Mathlib.Data.List.Basic
import Mathlib.Tactic.SplitIfs

/-!
# Decoding undoes encoding

Some bytes decode to a text exactly if they are its UTF-8 form. So every text survives, and bytes
that are the form of no text are refused.
-/

namespace Lox.Utf8

/-! ## One character -/

/-- The bits of some tails behind those of a lead. -/
def join (bits : Nat) (tails : List UInt8) : Nat :=
  tails.foldl (fun n b => n * 0x40 + b.toNat % 0x40) bits

/-- The character that a lead and some tails stand for. -/
def Spells (b : UInt8) (tails : List UInt8) (c : Char) : Prop :=
  lead b.toNat = .single ∧ tails = [] ∧ c.toNat = b.toNat ∨
  ∃ p, lead b.toNat = .sequence p ∧ tails.length = p.needed ∧ (∀ t ∈ tails, isTail t.toNat = true) ∧
    p.least ≤ c.toNat ∧ c.toNat = join p.bits tails

theorem isTail_iff (n : Nat) : isTail n = true ↔ 0x80 ≤ n ∧ n < 0xC0 := by
  simp [isTail]

theorem lead_eq_single_iff (n : Nat) : lead n = .single ↔ n < 0x80 := by
  unfold lead
  split_ifs <;> simp <;> omega

theorem lead_eq_sequence_iff (n : Nat) (p : Pending) :
    lead n = .sequence p ↔
      (0xC0 ≤ n ∧ n < 0xE0) ∧ p = ⟨n % 0x20, 1, 0x80⟩ ∨
      (0xE0 ≤ n ∧ n < 0xF0) ∧ p = ⟨n % 0x10, 2, 0x800⟩ ∨
      (0xF0 ≤ n ∧ n < 0xF8) ∧ p = ⟨n % 0x08, 3, 0x10000⟩ := by
  unfold lead
  grind

theorem needed_pos (n : Nat) (p : Pending) (h : lead n = .sequence p) : 0 < p.needed := by
  rw [lead_eq_sequence_iff] at h
  rcases h with ⟨-, rfl⟩ | ⟨-, rfl⟩ | ⟨-, rfl⟩ <;> simp

theorem toNat_lt (c : Char) : c.toNat < 0x110000 := by
  have h : c.toNat.isValidChar := c.valid
  omega

theorem toNat_ofNat (n : Nat) (h : n < 256) : (UInt8.ofNat n).toNat = n := by
  simp
  omega

theorem ofNat_eq (n : Nat) (b : UInt8) (h : n = b.toNat) : UInt8.ofNat n = b := by
  rw [h, UInt8.ofNat_toNat]

theorem encodeChar_eq (c : Char) :
    String.utf8EncodeChar c =
      if c.toNat ≤ 0x7F then [.ofNat c.toNat]
      else if c.toNat ≤ 0x7FF then
        [.ofNat (c.toNat / 0x40 % 0x20 + 0xC0), .ofNat (c.toNat % 0x40 + 0x80)]
      else if c.toNat ≤ 0xFFFF then
        [.ofNat (c.toNat / 0x1000 % 0x10 + 0xE0), .ofNat (c.toNat / 0x40 % 0x40 + 0x80),
          .ofNat (c.toNat % 0x40 + 0x80)]
      else
        [.ofNat (c.toNat / 0x40000 % 0x08 + 0xF0), .ofNat (c.toNat / 0x1000 % 0x40 + 0x80),
          .ofNat (c.toNat / 0x40 % 0x40 + 0x80), .ofNat (c.toNat % 0x40 + 0x80)] := rfl

theorem encodeChar_of_spells (b : UInt8) (tails : List UInt8) (c : Char) (h : Spells b tails c) :
    String.utf8EncodeChar c = b :: tails := by
  rw [encodeChar_eq]
  rcases h with ⟨hlead, rfl, hc⟩ | ⟨p, hlead, hlen, htails, hleast, hc⟩
  · rw [lead_eq_single_iff] at hlead
    rw [if_pos (by omega), ofNat_eq c.toNat b hc]
  · rw [lead_eq_sequence_iff] at hlead
    simp only [isTail_iff] at htails
    rcases hlead with ⟨hb, rfl⟩ | ⟨hb, rfl⟩ | ⟨hb, rfl⟩
    · obtain ⟨t, rfl⟩ := List.length_eq_one_iff.mp hlen
      simp [join] at htails hc hleast
      rw [if_neg (by omega), if_pos (by omega)]
      rw [ofNat_eq _ b (by omega), ofNat_eq _ t (by omega)]
    · obtain ⟨t, u, rfl⟩ := List.length_eq_two.mp hlen
      simp [join] at htails hc hleast
      rw [if_neg (by omega), if_neg (by omega), if_pos (by omega)]
      rw [ofNat_eq _ b (by omega), ofNat_eq _ t (by omega), ofNat_eq _ u (by omega)]
    · obtain ⟨t, u, v, rfl⟩ := List.length_eq_three.mp hlen
      have hlt := toNat_lt c
      simp [join] at htails hc hleast
      rw [if_neg (by omega), if_neg (by omega), if_neg (by omega)]
      rw [ofNat_eq _ b (by omega), ofNat_eq _ t (by omega), ofNat_eq _ u (by omega),
        ofNat_eq _ v (by omega)]

theorem spells_encodeChar (c : Char) :
    ∃ b tails, String.utf8EncodeChar c = b :: tails ∧ Spells b tails c := by
  have hlt := toNat_lt c
  rw [encodeChar_eq]
  split_ifs with h1 h2 h3
  · refine ⟨_, _, rfl, Or.inl ⟨?_, rfl, ?_⟩⟩
    · rw [lead_eq_single_iff, toNat_ofNat _ (by omega)]
      omega
    · rw [toNat_ofNat _ (by omega)]
  · refine ⟨_, _, rfl, Or.inr ⟨⟨c.toNat / 0x40, 1, 0x80⟩, ?_, rfl, ?_, by simp; omega, ?_⟩⟩
    · rw [lead_eq_sequence_iff, toNat_ofNat _ (by omega)]
      simp
      omega
    · simp [isTail_iff]
      omega
    · simp [join]
      omega
  · refine ⟨_, _, rfl, Or.inr ⟨⟨c.toNat / 0x1000, 2, 0x800⟩, ?_, rfl, ?_, by simp; omega, ?_⟩⟩
    · rw [lead_eq_sequence_iff, toNat_ofNat _ (by omega)]
      simp
      omega
    · simp [isTail_iff]
      omega
    · simp [join]
      omega
  · refine ⟨_, _, rfl, Or.inr ⟨⟨c.toNat / 0x40000, 3, 0x10000⟩, ?_, rfl, ?_, by simp; omega, ?_⟩⟩
    · rw [lead_eq_sequence_iff, toNat_ofNat _ (by omega)]
      simp
      omega
    · simp [isTail_iff]
      omega
    · simp [join]
      omega

/-! ## Many characters -/

theorem toNat_charOfNat (n : Nat) (h : n.isValidChar) : (Char.ofNat n).toNat = n := by
  rw [Char.ofNat, dif_pos h]
  rfl

theorem map_eq_ok (x : Except IoCause (List Char)) (f : List Char → List Char) (cs : List Char)
    (h : x.map f = .ok cs) : ∃ cs', x = .ok cs' ∧ cs = f cs' := by
  cases x with
  | error cause => cases h
  | ok cs' =>
    cases h
    exact ⟨cs', rfl, rfl⟩

theorem join_cons (bits : Nat) (t : UInt8) (tails : List UInt8) :
    join bits (t :: tails) = join (bits * 0x40 + t.toNat % 0x40) tails := rfl

theorem decodeFrom_tails (p : Pending) (tails rest : List UInt8) (hpos : 0 < p.needed)
    (hlen : tails.length = p.needed) (htails : ∀ t ∈ tails, isTail t.toNat = true)
    (hleast : p.least ≤ join p.bits tails) (hvalid : (join p.bits tails).isValidChar) :
    decodeFrom (some p) (tails ++ rest) =
      (decodeFrom none rest).map (Char.ofNat (join p.bits tails) :: ·) := by
  induction tails generalizing p with
  | nil =>
    rw [List.length_nil] at hlen
    omega
  | cons t tails ih =>
    obtain ⟨ht, htails⟩ := List.forall_mem_cons.mp htails
    rw [List.length_cons] at hlen
    rw [join_cons] at hleast hvalid ⊢
    by_cases hlast : p.needed ≤ 1
    · obtain rfl : tails = [] := List.eq_nil_of_length_eq_zero (by omega)
      simp only [List.cons_append, List.nil_append, decodeFrom, ht, hlast, Bool.not_true,
        Bool.false_eq_true, if_false, if_true]
      exact if_pos ⟨hleast, hvalid⟩
    · have hnext := ih ⟨p.bits * 0x40 + t.toNat % 0x40, p.needed - 1, p.least⟩ (by simp; omega)
        (by simp; omega) htails hleast hvalid
      simp only [List.cons_append, decodeFrom, ht, hlast]
      exact hnext

theorem exists_tails (p : Pending) (bs : List UInt8) (cs : List Char) (hpos : 0 < p.needed)
    (h : decodeFrom (some p) bs = .ok cs) :
    ∃ tails rest cs', bs = tails ++ rest ∧ tails.length = p.needed ∧
      (∀ t ∈ tails, isTail t.toNat = true) ∧ p.least ≤ join p.bits tails ∧
      (join p.bits tails).isValidChar ∧ decodeFrom none rest = .ok cs' ∧
      cs = Char.ofNat (join p.bits tails) :: cs' := by
  induction bs generalizing p with
  | nil => cases h
  | cons b bs ih =>
    unfold decodeFrom at h
    by_cases hb : isTail b.toNat = true
    · rw [if_neg (by simp [hb])] at h
      by_cases hlast : p.needed ≤ 1
      · simp only [hlast, if_true] at h
        by_cases hok : p.least ≤ p.bits * 0x40 + b.toNat % 0x40 ∧
            (p.bits * 0x40 + b.toNat % 0x40).isValidChar
        · rw [if_pos hok] at h
          obtain ⟨cs', hrest, rfl⟩ := map_eq_ok _ _ _ h
          exact ⟨[b], bs, cs', rfl, by simp; omega, by simp [hb], hok.1, hok.2, hrest, rfl⟩
        · rw [if_neg hok] at h
          cases h
      · simp only [hlast, if_false] at h
        obtain ⟨tails, rest, cs', rfl, hlen, htails, hrest⟩ := ih _ (by simp; omega) h
        refine ⟨b :: tails, rest, cs', rfl, ?_, ?_, hrest⟩
        · simp at hlen ⊢
          omega
        · exact List.forall_mem_cons.mpr ⟨hb, htails⟩
    · simp [hb] at h

theorem decodeFrom_spells (b : UInt8) (tails rest : List UInt8) (c : Char) (h : Spells b tails c) :
    decodeFrom none (b :: tails ++ rest) = (decodeFrom none rest).map (c :: ·) := by
  rcases h with ⟨hlead, rfl, hc⟩ | ⟨p, hlead, hlen, htails, hleast, hc⟩
  · simp only [List.cons_append, List.nil_append, decodeFrom, hlead]
    rw [← hc, Char.ofNat_toNat]
  · have hpos := needed_pos _ p hlead
    have hvalid : c.toNat.isValidChar := c.valid
    rw [hc] at hleast hvalid
    simp only [List.cons_append, decodeFrom, hlead]
    rw [decodeFrom_tails p tails rest hpos hlen htails hleast hvalid, ← hc, Char.ofNat_toNat]

theorem exists_spells (b : UInt8) (bs : List UInt8) (cs : List Char)
    (h : decodeFrom none (b :: bs) = .ok cs) :
    ∃ tails rest c cs', bs = tails ++ rest ∧ Spells b tails c ∧ decodeFrom none rest = .ok cs' ∧
      cs = c :: cs' := by
  unfold decodeFrom at h
  cases hlead : lead b.toNat with
  | invalid =>
    rw [hlead] at h
    cases h
  | single =>
    rw [hlead] at h
    obtain ⟨cs', hrest, rfl⟩ := map_eq_ok _ _ _ h
    have hlt := (lead_eq_single_iff _).mp hlead
    refine ⟨[], bs, _, cs', rfl, Or.inl ⟨hlead, rfl, ?_⟩, hrest, rfl⟩
    apply toNat_charOfNat
    left
    omega
  | sequence p =>
    rw [hlead] at h
    have hpos := needed_pos _ p hlead
    obtain ⟨tails, rest, cs', rfl, hlen, htails, hleast, hvalid, hrest, rfl⟩ :=
      exists_tails p bs cs hpos h
    have hc := toNat_charOfNat _ hvalid
    refine ⟨tails, rest, _, cs', rfl, Or.inr ⟨p, hlead, hlen, htails, ?_, hc⟩, hrest, rfl⟩
    rw [hc]
    exact hleast

theorem decodeFrom_encode (cs : List Char) :
    decodeFrom none (cs.flatMap String.utf8EncodeChar) = .ok cs := by
  induction cs with
  | nil => rfl
  | cons c cs ih =>
    obtain ⟨b, tails, hencode, hspells⟩ := spells_encodeChar c
    rw [List.flatMap_cons, hencode, decodeFrom_spells b tails _ c hspells, ih]
    rfl

theorem encode_of_decodeFrom (n : Nat) (bs : List UInt8) (cs : List Char) (hn : bs.length ≤ n)
    (h : decodeFrom none bs = .ok cs) : bs = cs.flatMap String.utf8EncodeChar := by
  induction n generalizing bs cs with
  | zero =>
    obtain rfl : bs = [] := List.eq_nil_of_length_eq_zero (by omega)
    cases h
    rfl
  | succ n ih =>
    cases bs with
    | nil =>
      cases h
      rfl
    | cons b bs =>
      obtain ⟨tails, rest, c, cs', rfl, hspells, hrest, rfl⟩ := exists_spells b bs cs h
      simp only [List.length_cons, List.length_append] at hn
      rw [List.flatMap_cons, encodeChar_of_spells b tails c hspells, ← ih rest cs' (by omega) hrest]
      rfl

theorem decode_eq_ok_iff (bytes : List UInt8) (s : String) :
    decode bytes = .ok s ↔ bytes = encode s := by
  unfold decode encode
  constructor
  · intro h
    cases hdecode : decodeFrom none bytes with
    | error cause =>
      rw [hdecode] at h
      cases h
    | ok cs =>
      rw [hdecode] at h
      obtain rfl : String.ofList cs = s := by simpa [Except.map] using h
      rw [String.toList_ofList]
      exact encode_of_decodeFrom _ bytes cs (Nat.le_refl _) hdecode
  · rintro rfl
    rw [decodeFrom_encode]
    simp [Except.map]

end Lox.Utf8
