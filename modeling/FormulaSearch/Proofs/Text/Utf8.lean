import Mathlib
import FormulaSearch.Proofs.Failure
import FormulaSearch.Text.Utf8

/-!
# Decoding UTF-8

The decoder succeeds on exactly the byte sequences that are the UTF-8 of some characters, and gives these
characters. A pending character stands for the codes that it can still come to. Each of them belongs to a
character whose bytes begin with those seen, and a byte in bounds leaves a pending character, or the
character itself, that stands for fewer codes. Blocks do not matter for what is read, only for where a
fault is located.
-/

namespace FormulaSearch.Text.Utf8

open String (utf8EncodeChar)

/-- The bytes are the UTF-8 of some characters. -/
def IsText (bytes : List UInt8) : Prop := ∃ cs : List Char, bytes = cs.flatMap utf8EncodeChar

/-! ## The bytes of a character -/

/-- How many bytes follow the first one. -/
def followers (v : Nat) : Nat :=
  if v ≤ 0x7F then 0 else if v ≤ 0x7FF then 1 else if v ≤ 0xFFFF then 2 else 3

/-- The first byte as a number. -/
def lead (v : Nat) : Nat :=
  if v ≤ 0x7F then v
  else if v ≤ 0x7FF then v / 64 % 32 + 0xC0
  else if v ≤ 0xFFFF then v / 4096 % 16 + 0xE0
  else v / 262144 % 8 + 0xF0

/-- The last bytes, six bits in each. -/
def following (v : Nat) : Nat → List UInt8
  | 0 => []
  | count + 1 => UInt8.ofNat (v / 64 ^ count % 64 + 0x80) :: following v count

theorem utf8EncodeChar_eq (c : Char) :
    utf8EncodeChar c = UInt8.ofNat (lead c.toNat) :: following c.toNat (followers c.toNat) := by
  have hcode : c.val.toNat = c.toNat := rfl
  rw [utf8EncodeChar, hcode]
  generalize c.toNat = v
  by_cases h1 : v ≤ 0x7F
  · simp [lead, followers, following, h1]
  · by_cases h2 : v ≤ 0x7FF
    · simp [lead, followers, following, h1, h2]
    · by_cases h3 : v ≤ 0xFFFF
      · simp [lead, followers, following, h1, h2, h3]
      · simp [lead, followers, following, h1, h2, h3]

theorem exists_char {v : Nat} (h : v.isValidChar) : ∃ c : Char, c.toNat = v :=
  ⟨Char.ofNatAux v h, by simp [Char.toNat, Char.ofNatAux]⟩

/-! ## What a pending character can come to -/

/-- A code that the pending character can come to. -/
structure Pending.Admits (p : Pending) (v : Nat) : Prop where
  bits_eq : v / 64 ^ p.missing = p.bits
  low_le : p.low ≤ v / 64 ^ (p.missing - 1) % 64 + 0x80
  le_high : v / 64 ^ (p.missing - 1) % 64 + 0x80 ≤ p.high

/-- Only followers are waited for, and every code that the pending character can come to is that of a
character whose bytes begin with those seen. -/
structure Pending.Sound (p : Pending) : Prop where
  missing_pos : 0 < p.missing
  low_ge : 0x80 ≤ p.low
  high_le : p.high ≤ 0xBF
  encodes : ∀ v, p.Admits v → ∃ c : Char, c.toNat = v ∧
    utf8EncodeChar c = p.seen.reverse ++ following v p.missing

/-! ## First bytes -/

theorem size_two {v : Nat} (h : 0x7F < v) (h' : v ≤ 0x7FF) :
    followers v = 1 ∧ lead v = v / 64 % 32 + 0xC0 := by
  have h1 : ¬ v ≤ 0x7F := by omega
  simp [followers, lead, h1, h']

theorem size_three {v : Nat} (h : 0x7FF < v) (h' : v ≤ 0xFFFF) :
    followers v = 2 ∧ lead v = v / 4096 % 16 + 0xE0 := by
  have h1 : ¬ v ≤ 0x7F := by omega
  have h2 : ¬ v ≤ 0x7FF := by omega
  simp [followers, lead, h1, h2, h']

theorem size_four {v : Nat} (h : 0xFFFF < v) :
    followers v = 3 ∧ lead v = v / 262144 % 8 + 0xF0 := by
  have h1 : ¬ v ≤ 0x7F := by omega
  have h2 : ¬ v ≤ 0x7FF := by omega
  have h3 : ¬ v ≤ 0xFFFF := by omega
  simp [followers, lead, h1, h2, h3]

/-- A first byte is announced soundly if it is the first byte of every code that it can lead to. -/
theorem Pending.sound_first {b : UInt8} {missing bits low high : Nat} (hpos : 0 < missing)
    (hlow : 0x80 ≤ low) (hhigh : high ≤ 0xBF)
    (h : ∀ v, Pending.Admits ⟨[b], missing, bits, low, high⟩ v →
      v.isValidChar ∧ followers v = missing ∧ lead v = b.toNat) :
    Pending.Sound ⟨[b], missing, bits, low, high⟩ where
  missing_pos := hpos
  low_ge := hlow
  high_le := hhigh
  encodes v hv := by
    obtain ⟨hvalid, hfollowers, hlead⟩ := h v hv
    obtain ⟨c, rfl⟩ := exists_char hvalid
    refine ⟨c, rfl, ?_⟩
    rw [utf8EncodeChar_eq, hfollowers, hlead, UInt8.ofNat_toNat]
    rfl

/-- One follower is announced soundly. -/
theorem Pending.sound_two {b : UInt8} {bits low high : Nat} (hlow : 0x80 ≤ low) (hhigh : high ≤ 0xBF)
    (h : ∀ v, v / 64 = bits → low ≤ v % 64 + 0x80 → v % 64 + 0x80 ≤ high →
      0x7F < v ∧ v ≤ 0x7FF ∧ v / 64 % 32 + 0xC0 = b.toNat) :
    Pending.Sound ⟨[b], 1, bits, low, high⟩ := by
  refine Pending.sound_first (by decide) hlow hhigh fun v hv => ?_
  obtain ⟨hbits, hge, hle⟩ := hv
  obtain ⟨hmore, hless, hlead⟩ := h v (by simpa using hbits) (by simpa using hge) (by simpa using hle)
  obtain ⟨hfollowers, hfirst⟩ := size_two hmore hless
  exact ⟨.inl (by omega), hfollowers, hfirst.trans hlead⟩

/-- Two followers are announced soundly. -/
theorem Pending.sound_three {b : UInt8} {bits low high : Nat} (hlow : 0x80 ≤ low)
    (hhigh : high ≤ 0xBF)
    (h : ∀ v, v / 4096 = bits → low ≤ v / 64 % 64 + 0x80 → v / 64 % 64 + 0x80 ≤ high →
      0x7FF < v ∧ v ≤ 0xFFFF ∧ v.isValidChar ∧ v / 4096 % 16 + 0xE0 = b.toNat) :
    Pending.Sound ⟨[b], 2, bits, low, high⟩ := by
  refine Pending.sound_first (by decide) hlow hhigh fun v hv => ?_
  obtain ⟨hbits, hge, hle⟩ := hv
  obtain ⟨hmore, hless, hvalid, hlead⟩ :=
    h v (by simpa using hbits) (by simpa using hge) (by simpa using hle)
  obtain ⟨hfollowers, hfirst⟩ := size_three hmore hless
  exact ⟨hvalid, hfollowers, hfirst.trans hlead⟩

/-- Three followers are announced soundly. -/
theorem Pending.sound_four {b : UInt8} {bits low high : Nat} (hlow : 0x80 ≤ low)
    (hhigh : high ≤ 0xBF)
    (h : ∀ v, v / 262144 = bits → low ≤ v / 4096 % 64 + 0x80 → v / 4096 % 64 + 0x80 ≤ high →
      0xFFFF < v ∧ v < 0x110000 ∧ v / 262144 % 8 + 0xF0 = b.toNat) :
    Pending.Sound ⟨[b], 3, bits, low, high⟩ := by
  refine Pending.sound_first (by decide) hlow hhigh fun v hv => ?_
  obtain ⟨hbits, hge, hle⟩ := hv
  obtain ⟨hmore, hless, hlead⟩ := h v (by simpa using hbits) (by simpa using hge) (by simpa using hle)
  obtain ⟨hfollowers, hfirst⟩ := size_four hmore
  exact ⟨.inr ⟨by omega, hless⟩, hfollowers, hfirst.trans hlead⟩

/-- What a first byte announces is sound. -/
theorem Pending.start?_sound {b : UInt8} {p : Pending} (h : Pending.start? b = some p) : p.Sound := by
  rw [Pending.start?] at h
  -- in each range the bits and the bounds leave the codes that have this first byte and no others
  split at h
  · cases h
    exact Pending.sound_two (by decide) (by decide) fun v _ _ _ => by omega
  · split at h
    · cases h
      exact Pending.sound_three (by decide) (by decide) fun v _ _ _ => by omega
    · split at h
      · cases h
        exact Pending.sound_three (by decide) (by decide) fun v _ _ _ => by omega
      · split at h
        · cases h
          exact Pending.sound_three (by decide) (by decide) fun v _ _ _ => by omega
        · split at h
          · cases h
            exact Pending.sound_four (by decide) (by decide) fun v _ _ _ => by omega
          · split at h
            · cases h
              exact Pending.sound_four (by decide) (by decide) fun v _ _ _ => by omega
            · split at h
              · cases h
                exact Pending.sound_four (by decide) (by decide) fun v _ _ _ => by omega
              · cases h

theorem Pending.start?_seen {b : UInt8} {p : Pending} (h : Pending.start? b = some p) :
    p.seen = [b] := by
  rw [Pending.start?] at h
  repeat' split at h
  all_goals first
    | cases h
      rfl
    | cases h

theorem Pending.start?_ge {b : UInt8} {p : Pending} (h : Pending.start? b = some p) :
    ¬ b.toNat < 0x80 := by
  rw [Pending.start?] at h
  repeat' split at h
  all_goals first
    | omega
    | cases h

/-- A code is that of a pending character if the six bits from a place on are in bounds and those before
are its own. -/
theorem admits_at (place : Nat) {b : UInt8} {missing bits low high v : Nat}
    (hplace : 64 ^ (missing - 1) = place) (hpos : 0 < missing) (hbits : v / place / 64 = bits)
    (hlow : low ≤ v / place % 64 + 0x80) (hhigh : v / place % 64 + 0x80 ≤ high) :
    Pending.Admits ⟨[b], missing, bits, low, high⟩ v := by
  subst hplace
  refine ⟨?_, hlow, hhigh⟩
  rw [← hbits, Nat.div_div_eq_div_mul, ← pow_succ, Nat.sub_add_cancel hpos]

/-- The first byte of a character of several bytes announces it. -/
theorem Pending.start?_lead {v : Nat} (hv : v.isValidChar) (h : 0x7F < v) :
    ∃ p, Pending.start? (UInt8.ofNat (lead v)) = some p ∧ p.Admits v ∧ p.missing = followers v := by
  have hnat (hlead : lead v < 256) : (UInt8.ofNat (lead v)).toNat = lead v := by
    rw [UInt8.toNat_ofNat']
    exact Nat.mod_eq_of_lt hlead
  rw [Pending.start?]
  by_cases h2 : v ≤ 0x7FF
  · obtain ⟨hfollowers, hlead⟩ := size_two h h2
    rw [hnat (by omega), hfollowers]
    rw [if_pos (by omega)]
    exact ⟨_, rfl, admits_at 1 rfl (by decide) (by omega) (by omega) (by omega), rfl⟩
  · by_cases h3 : v ≤ 0xFFFF
    · obtain ⟨hfollowers, hlead⟩ := size_three (by omega) h3
      rw [hnat (by omega), hfollowers, if_neg (by omega)]
      -- the first and the last but two of these bytes have bounds of their own
      split
      · exact ⟨_, rfl, admits_at 64 rfl (by decide) (by omega) (by omega) (by omega), rfl⟩
      · split
        · exact ⟨_, rfl, admits_at 64 rfl (by decide) (by omega) (by omega) (by omega), rfl⟩
        · rw [if_pos (by omega)]
          exact ⟨_, rfl, admits_at 64 rfl (by decide) (by omega) (by omega) (by omega), rfl⟩
    · obtain ⟨hfollowers, hlead⟩ := size_four (Nat.lt_of_not_le h3)
      rw [hnat (by omega), hfollowers, if_neg (by omega), if_neg (by omega), if_neg (by omega),
        if_neg (by omega)]
      split
      · exact ⟨_, rfl, admits_at 4096 rfl (by decide) (by omega) (by omega) (by omega), rfl⟩
      · split
        · exact ⟨_, rfl, admits_at 4096 rfl (by decide) (by omega) (by omega) (by omega), rfl⟩
        · rw [if_pos (by omega)]
          exact ⟨_, rfl, admits_at 4096 rfl (by decide) (by omega) (by omega) (by omega), rfl⟩

/-! ## Followers -/

/-- What a follower in bounds leaves to come. -/
def Pending.next (p : Pending) (b : UInt8) : Pending :=
  ⟨b :: p.seen, p.missing - 1, p.bits * 0x40 + b.toNat % 0x40, 0x80, 0xBF⟩

/-- A code is reached by way of its own followers. -/
theorem admits_of_follower {p : Pending} {b : UInt8} {v : Nat} (hp : p.Sound)
    (hlow : p.low ≤ b.toNat) (hhigh : b.toNat ≤ p.high)
    (hbits : v / 64 ^ (p.missing - 1) = p.bits * 0x40 + b.toNat % 0x40) :
    p.Admits v ∧ following v p.missing = b :: following v (p.missing - 1) := by
  obtain ⟨count, hcount⟩ : ∃ count, p.missing = count + 1 :=
    ⟨p.missing - 1, by have := hp.missing_pos; omega⟩
  have hge := hp.low_ge
  have hle := hp.high_le
  rw [hcount, Nat.add_sub_cancel] at hbits
  have hdigit : v / 64 ^ count % 64 + 0x80 = b.toNat := by omega
  have hdiv : v / 64 ^ (count + 1) = p.bits := by
    rw [pow_succ, ← Nat.div_div_eq_div_mul, hbits]
    omega
  refine ⟨⟨?_, ?_, ?_⟩, ?_⟩
  · rw [hcount, hdiv]
  · rwa [hcount, Nat.add_sub_cancel, hdigit]
  · rwa [hcount, Nat.add_sub_cancel, hdigit]
  · rw [hcount, following, hdigit, UInt8.ofNat_toNat, Nat.add_sub_cancel]

theorem Pending.Sound.next {p : Pending} {b : UInt8} (hp : p.Sound) (hlow : p.low ≤ b.toNat)
    (hhigh : b.toNat ≤ p.high) (hmissing : 1 < p.missing) : (p.next b).Sound where
  missing_pos := by
    show 0 < p.missing - 1
    omega
  low_ge := le_refl _
  high_le := le_refl _
  encodes v hv := by
    obtain ⟨hadmits, hfollowing⟩ := admits_of_follower hp hlow hhigh hv.bits_eq
    obtain ⟨c, hc, hencode⟩ := hp.encodes v hadmits
    refine ⟨c, hc, ?_⟩
    rw [hencode, hfollowing, Pending.next, List.reverse_cons, List.append_assoc]
    rfl

/-- The last follower completes a character. -/
theorem Pending.Sound.last {p : Pending} {b : UInt8} (hp : p.Sound) (hlow : p.low ≤ b.toNat)
    (hhigh : b.toNat ≤ p.high) (hmissing : p.missing ≤ 1) :
    utf8EncodeChar (Char.ofNat (p.bits * 0x40 + b.toNat % 0x40)) = p.seen.reverse ++ [b] := by
  have hone : p.missing = 1 := Nat.le_antisymm hmissing hp.missing_pos
  obtain ⟨hadmits, hfollowing⟩ := admits_of_follower (v := p.bits * 0x40 + b.toNat % 0x40) hp hlow
    hhigh (by simp [hone])
  obtain ⟨c, hc, hencode⟩ := hp.encodes _ hadmits
  rw [← hc, Char.ofNat_toNat, hencode, hfollowing, hone]
  rfl

/-! ## What is decoded -/

/-- The bytes seen of a pending character, in their order. -/
def seenBytes (pending : Option Pending) : List UInt8 :=
  match pending with
  | none => []
  | some p => p.seen.reverse

theorem encode_ascii {b : UInt8} (h : b.toNat < 0x80) : utf8EncodeChar (Char.ofNat b.toNat) = [b] := by
  obtain ⟨c, hc⟩ := exists_char (.inl (by omega) : b.toNat.isValidChar)
  have hsize : followers b.toNat = 0 ∧ lead b.toNat = b.toNat := by
    rw [followers, lead, if_pos (by omega), if_pos (by omega)]
    exact ⟨rfl, rfl⟩
  rw [← hc, Char.ofNat_toNat, utf8EncodeChar_eq, hc, hsize.1, hsize.2, UInt8.ofNat_toNat]
  rfl

theorem no_pending : ∀ p ∈ (none : Option Pending), p.Sound := by simp

/-- What is decoded is the UTF-8 of the characters that it gives. -/
theorem decodeFrom_sound {bytes : List UInt8} {index base : Nat} {pending : Option Pending}
    {done cs : List Char} (hp : ∀ p ∈ pending, p.Sound)
    (h : decodeFrom index base pending done bytes = .ok cs) :
    ∃ rest, cs = done.reverse ++ rest ∧ seenBytes pending ++ bytes = rest.flatMap utf8EncodeChar := by
  induction bytes generalizing index base pending done with
  | nil =>
    cases pending with
    | none =>
      cases h
      exact ⟨[], by simp, rfl⟩
    | some p => cases h
  | cons b bytes ih =>
    cases pending with
    | none =>
      rw [decodeFrom] at h
      split at h
      · rename_i hascii
        obtain ⟨rest, rfl, hbytes⟩ := ih no_pending h
        refine ⟨Char.ofNat b.toNat :: rest, by simp, ?_⟩
        rw [List.flatMap_cons, encode_ascii hascii, ← hbytes]
        rfl
      · split at h
        · cases h
        · rename_i p hstart
          obtain ⟨rest, rfl, hbytes⟩ := ih (fun q hq => by
            cases hq
            exact Pending.start?_sound hstart) h
          refine ⟨rest, rfl, ?_⟩
          rw [← hbytes, seenBytes, seenBytes, Pending.start?_seen hstart]
          rfl
    | some p =>
      have hsound := hp p rfl
      rw [decodeFrom] at h
      dsimp only at h
      split at h
      · rename_i hbounds
        split at h
        · rename_i hmissing
          obtain ⟨rest, rfl, hbytes⟩ := ih no_pending h
          refine ⟨Char.ofNat (p.bits * 0x40 + b.toNat % 0x40) :: rest, by simp, ?_⟩
          rw [List.flatMap_cons, hsound.last hbounds.1 hbounds.2 hmissing, ← hbytes]
          simp [seenBytes]
        · rename_i hmissing
          obtain ⟨rest, rfl, hbytes⟩ := ih (fun q hq => by
            cases hq
            exact hsound.next hbounds.1 hbounds.2 (Nat.lt_of_not_le hmissing)) h
          refine ⟨rest, rfl, ?_⟩
          rw [← hbytes]
          simp [seenBytes]
      · cases h

theorem follower_toNat (v place : Nat) :
    (UInt8.ofNat (v / place % 64 + 0x80)).toNat = v / place % 64 + 0x80 := by
  rw [UInt8.toNat_ofNat']
  exact Nat.mod_eq_of_lt (by omega)

/-- A pending character that is followed by the rest of a character becomes this character. -/
theorem decodeFrom_following {count : Nat} {p : Pending} {v : Nat} (hcount : p.missing = count + 1)
    (hv : p.Admits v) (index base : Nat) (done : List Char) (rest : List UInt8) :
    ∃ index' base', decodeFrom index base (some p) done (following v (count + 1) ++ rest) =
      decodeFrom index' base' none (Char.ofNat v :: done) rest := by
  induction count generalizing p index base with
  | zero =>
    obtain ⟨hbits, hlow, hhigh⟩ := hv
    rw [hcount] at hbits hlow hhigh
    have hnat := follower_toNat v (64 ^ 0)
    rw [following, List.cons_append, decodeFrom, hnat, if_pos ⟨hlow, hhigh⟩, if_pos (by omega)]
    have hcode : p.bits * 0x40 + (v / 64 ^ 0 % 64 + 0x80) % 0x40 = v := by omega
    rw [hcode]
    exact ⟨_, _, rfl⟩
  | succ count ih =>
    obtain ⟨hbits, hlow, hhigh⟩ := hv
    rw [hcount, Nat.add_sub_cancel] at hlow hhigh
    have hnat := follower_toNat v (64 ^ (count + 1))
    rw [following, List.cons_append, decodeFrom, hnat, if_pos ⟨hlow, hhigh⟩, if_neg (by omega)]
    refine ih (by show p.missing - 1 = _; omega) ⟨?_, ?_, ?_⟩ _ _
    · rw [hcount, pow_succ, ← Nat.div_div_eq_div_mul] at hbits
      show v / 64 ^ (p.missing - 1) = p.bits * 0x40 + (v / 64 ^ (count + 1) % 64 + 0x80) % 0x40
      rw [hcount, Nat.add_sub_cancel]
      omega
    · exact Nat.le_add_left _ _
    · show _ ≤ 0xBF
      omega

/-- The UTF-8 of characters is decoded to them. -/
theorem decodeFrom_encoded (cs : List Char) (index base : Nat) (done : List Char) :
    decodeFrom index base none done (cs.flatMap utf8EncodeChar) = .ok (done.reverse ++ cs) := by
  induction cs generalizing index base done with
  | nil => simp [decodeFrom]
  | cons c cs ih =>
    rw [List.flatMap_cons]
    by_cases hascii : c.toNat ≤ 0x7F
    · have hnat : (UInt8.ofNat c.toNat).toNat = c.toNat := by
        rw [UInt8.toNat_ofNat']
        exact Nat.mod_eq_of_lt (by omega)
      have hencode := encode_ascii (b := UInt8.ofNat c.toNat) (by omega)
      rw [hnat, Char.ofNat_toNat] at hencode
      rw [hencode, List.singleton_append, decodeFrom, if_pos (by omega), hnat, Char.ofNat_toNat, ih]
      simp
    · have hvalid : c.toNat.isValidChar := c.valid
      obtain ⟨p, hstart, hadmits, hmissing⟩ := Pending.start?_lead hvalid (Nat.lt_of_not_le hascii)
      have hpos := (Pending.start?_sound hstart).missing_pos
      rw [utf8EncodeChar_eq, List.cons_append, decodeFrom, if_neg (Pending.start?_ge hstart), hstart]
      dsimp only
      obtain ⟨count, hcount⟩ : ∃ count, p.missing = count + 1 := ⟨p.missing - 1, by omega⟩
      rw [← hmissing, hcount]
      obtain ⟨index', base', hrun⟩ := decodeFrom_following hcount hadmits (index + 1)
        (if index % blockSize = 0 then index - heldBytes none else base) done
        (cs.flatMap utf8EncodeChar)
      rw [hrun, Char.ofNat_toNat, ih]
      simp

/-- The decoder gives the characters of which the bytes are the UTF-8, and fails if there are none. -/
theorem decode_eq_ok_iff {bytes : List UInt8} {cs : List Char} :
    decode bytes = .ok cs ↔ bytes = cs.flatMap utf8EncodeChar := by
  constructor
  · intro h
    obtain ⟨rest, rfl, hbytes⟩ := decodeFrom_sound no_pending h
    exact hbytes
  · rintro rfl
    exact decodeFrom_encoded cs 0 0 []

theorem exists_decode_iff {bytes : List UInt8} : (∃ cs, decode bytes = .ok cs) ↔ IsText bytes := by
  simp only [decode_eq_ok_iff, IsText]

end FormulaSearch.Text.Utf8
