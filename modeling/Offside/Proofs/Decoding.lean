import Mathlib.Data.List.Basic
import Offside.Text.Utf8

/-!
# What can be decoded

The blocks that a file is read in do not show in its text: a file can be read to its end if and
only if its bytes are those of a text, and then that text is what is read, line ends unified.

The bytes of a character that have been read are told by the characters that may still come of
them, each with the bytes that complete it.

## Main definitions

* `Utf8.complete` — the character that the missing bytes complete.
* `Pending.Begins` — the bytes that have been read of a character.
* `Utf8.Spelt` — the bytes that are still to be read of a text.

## Main results

* `Utf8.encode_of_scan` — the bytes of a block are those of its text, but for the character that
  it ends within.
* `Utf8.scan_of_spelt` — no block of the bytes of a text is at fault.
* `Utf8.decode_eq_iff` — a file can be read to its end if and only if its bytes are those of a
  text.
-/

namespace Offside.Text.Utf8

/-! ### The bytes of one character -/

/-- The character that the missing bytes complete, the first of which lies in a range. -/
def complete (missing low high bits : Nat) : List UInt8 → Option Char
  | [] => none
  | b :: rest =>
    if low ≤ b.toNat ∧ b.toNat ≤ high then
      let bits := bits * 64 + (b.toNat - 0x80)
      if missing ≤ 1 then if rest = [] then some (Char.ofNat bits) else none
      else complete (missing - 1) 0x80 0xBF bits rest
    else none

variable {missing low high bits position : Nat} {b x y z : UInt8}
  {bytes tail rest block : List UInt8} {c : Char} {p : Pending} {cs : List Char}

theorem complete_one (h : low ≤ b.toNat ∧ b.toNat ≤ high) :
    complete 1 low high bits [b] = some (Char.ofNat (bits * 64 + (b.toNat - 0x80))) := by
  rw [complete, if_pos h]
  rfl

theorem complete_succ (h : low ≤ b.toNat ∧ b.toNat ≤ high) :
    complete (missing + 2) low high bits (b :: rest) =
      complete (missing + 1) 0x80 0xBF (bits * 64 + (b.toNat - 0x80)) rest := by
  rw [complete, if_pos h]
  rfl

theorem exists_of_complete_one (h : complete 1 low high bits tail = some c) :
    ∃ b, tail = [b] ∧ low ≤ b.toNat ∧ b.toNat ≤ high ∧
      c = Char.ofNat (bits * 64 + (b.toNat - 0x80)) := by
  cases tail with
  | nil => simp [complete] at h
  | cons b rest =>
    rw [complete] at h
    split at h
    · next hrange =>
      obtain ⟨rfl, rfl⟩ : rest = [] ∧ _ := by simpa using h
      exact ⟨b, rfl, hrange.1, hrange.2, rfl⟩
    · simp at h

theorem exists_of_complete_succ (h : complete (missing + 2) low high bits tail = some c) :
    ∃ b rest, tail = b :: rest ∧ low ≤ b.toNat ∧ b.toNat ≤ high ∧
      complete (missing + 1) 0x80 0xBF (bits * 64 + (b.toNat - 0x80)) rest = some c := by
  cases tail with
  | nil => simp [complete] at h
  | cons b rest =>
    rw [complete] at h
    split at h
    · next hrange => exact ⟨b, rest, rfl, hrange.1, hrange.2, by simpa using h⟩
    · simp at h

theorem toNat_ofNat {n : Nat} (h : n.isValidChar) : (Char.ofNat n).val.toNat = n := by
  rw [Char.ofNat, dif_pos h]
  rfl

theorem ofNat_eq_of_toNat {n : Nat} (h : n = b.toNat) : UInt8.ofNat n = b := by
  rw [h, UInt8.ofNat_toNat]

/-- A byte that is a character is all of its bytes. -/
theorem encodeChar_of_start?_inl (h : start? position b = some (.inl c)) :
    String.utf8EncodeChar c = [b] := by
  rw [start?] at h
  split at h
  · next hb =>
    obtain rfl : Char.ofNat b.toNat = c := by simpa using h
    have hvalid : b.toNat.isValidChar := Or.inl (by omega)
    simp only [String.utf8EncodeChar, toNat_ofNat hvalid]
    rw [if_pos (by omega), UInt8.ofNat_toNat]
  · -- all other bytes start a longer character, if any
    repeat' split at h
    all_goals simp at h

theorem encodeChar_two (hb : 0xC2 ≤ b.toNat ∧ b.toNat < 0xE0)
    (hx : 0x80 ≤ x.toNat ∧ x.toNat ≤ 0xBF) :
    String.utf8EncodeChar (Char.ofNat ((b.toNat - 0xC0) * 64 + (x.toNat - 0x80))) = [b, x] := by
  have hvalid : ((b.toNat - 0xC0) * 64 + (x.toNat - 0x80)).isValidChar := Or.inl (by omega)
  simp only [String.utf8EncodeChar, toNat_ofNat hvalid]
  rw [if_neg (by omega), if_pos (by omega), ofNat_eq_of_toNat (b := b) (by omega),
    ofNat_eq_of_toNat (b := x) (by omega)]

/-- The range of the second byte keeps out overlong forms and surrogates. -/
theorem encodeChar_three (hb : 0xE0 ≤ b.toNat ∧ b.toNat < 0xF0)
    (hlow : (if b.toNat = 0xE0 then 0xA0 else 0x80) ≤ x.toNat)
    (hhigh : x.toNat ≤ if b.toNat = 0xED then 0x9F else 0xBF)
    (hy : 0x80 ≤ y.toNat ∧ y.toNat ≤ 0xBF) :
    String.utf8EncodeChar
      (Char.ofNat (((b.toNat - 0xE0) * 64 + (x.toNat - 0x80)) * 64 + (y.toNat - 0x80))) =
      [b, x, y] := by
  generalize hn : ((b.toNat - 0xE0) * 64 + (x.toNat - 0x80)) * 64 + (y.toNat - 0x80) = n
  obtain ⟨hmore, hx, hvalid⟩ : 0x7FF < n ∧ (0x80 ≤ x.toNat ∧ x.toNat ≤ 0xBF) ∧ n.isValidChar := by
    unfold Nat.isValidChar
    split at hlow <;> split at hhigh <;> omega
  simp only [String.utf8EncodeChar, toNat_ofNat hvalid]
  rw [if_neg (by omega), if_neg (by omega), if_pos (by omega),
    ofNat_eq_of_toNat (b := b) (by omega), ofNat_eq_of_toNat (b := x) (by omega),
    ofNat_eq_of_toNat (b := y) (by omega)]

/-- The range of the second byte keeps out overlong forms and code points past the last. -/
theorem encodeChar_four (hb : 0xF0 ≤ b.toNat ∧ b.toNat < 0xF5)
    (hlow : (if b.toNat = 0xF0 then 0x90 else 0x80) ≤ x.toNat)
    (hhigh : x.toNat ≤ if b.toNat = 0xF4 then 0x8F else 0xBF)
    (hy : 0x80 ≤ y.toNat ∧ y.toNat ≤ 0xBF) (hz : 0x80 ≤ z.toNat ∧ z.toNat ≤ 0xBF) :
    String.utf8EncodeChar
      (Char.ofNat ((((b.toNat - 0xF0) * 64 + (x.toNat - 0x80)) * 64 + (y.toNat - 0x80)) * 64 +
        (z.toNat - 0x80))) = [b, x, y, z] := by
  generalize hn : (((b.toNat - 0xF0) * 64 + (x.toNat - 0x80)) * 64 + (y.toNat - 0x80)) * 64 +
    (z.toNat - 0x80) = n
  obtain ⟨hmore, hx, hvalid⟩ :
      0xFFFF < n ∧ (0x80 ≤ x.toNat ∧ x.toNat ≤ 0xBF) ∧ n.isValidChar := by
    unfold Nat.isValidChar
    split at hlow <;> split at hhigh <;> omega
  simp only [String.utf8EncodeChar, toNat_ofNat hvalid]
  rw [if_neg (by omega), if_neg (by omega), if_neg (by omega),
    ofNat_eq_of_toNat (b := b) (by omega), ofNat_eq_of_toNat (b := x) (by omega),
    ofNat_eq_of_toNat (b := y) (by omega), ofNat_eq_of_toNat (b := z) (by omega)]

/-- A byte that starts a character is the first of its bytes. -/
theorem encodeChar_of_start?_inr (h : start? position b = some (.inr p))
    (hc : complete p.missing p.low p.high p.bits tail = some c) :
    String.utf8EncodeChar c = b :: tail := by
  rw [start?] at h
  -- one case for each number of bytes
  split at h
  · simp at h
  split at h
  · simp at h
  split at h
  · obtain rfl := by simpa using h
    dsimp only at hc
    obtain ⟨x, rfl, hlow, hhigh, hchar⟩ := exists_of_complete_one hc
    rw [hchar]
    exact encodeChar_two (by omega) ⟨hlow, hhigh⟩
  split at h
  · obtain rfl := by simpa using h
    dsimp only at hc
    obtain ⟨x, rest, rfl, hlow, hhigh, hc⟩ := exists_of_complete_succ hc
    obtain ⟨y, rfl, hlow', hhigh', hchar⟩ := exists_of_complete_one hc
    rw [hchar]
    exact encodeChar_three (by omega) hlow hhigh ⟨hlow', hhigh'⟩
  split at h
  · obtain rfl := by simpa using h
    dsimp only at hc
    obtain ⟨x, rest, rfl, hlow, hhigh, hc⟩ := exists_of_complete_succ hc
    obtain ⟨y, rest, rfl, hlow', hhigh', hc⟩ := exists_of_complete_succ hc
    obtain ⟨z, rfl, hlow'', hhigh'', hchar⟩ := exists_of_complete_one hc
    rw [hchar]
    exact encodeChar_four (by omega) hlow hhigh ⟨hlow', hhigh'⟩ ⟨hlow'', hhigh''⟩
  · simp at h

/-- The first byte of a character starts it, and its other bytes complete it. -/
theorem exists_start? (position : Nat) (c : Char) :
    ∃ b tail, String.utf8EncodeChar c = b :: tail ∧
      ((tail = [] ∧ start? position b = some (.inl c)) ∨
        ∃ p, start? position b = some (.inr p) ∧
          complete p.missing p.low p.high p.bits tail = some c) := by
  have hvalid : c.val.toNat.isValidChar := c.valid
  have hc : Char.ofNat c.val.toNat = c := Char.ofNat_toNat c
  have hbyte (n : Nat) (h : n < 256) : (UInt8.ofNat n).toNat = n := UInt8.toNat_ofNat_of_lt' h
  unfold Nat.isValidChar at hvalid
  rw [String.utf8EncodeChar]
  generalize c.val.toNat = v at hvalid hc
  -- one case for each number of bytes
  split
  · have hb := hbyte v (by omega)
    refine ⟨_, [], rfl, Or.inl ⟨rfl, ?_⟩⟩
    rw [start?, hb, if_pos (by omega), hc]
  split
  · have hb := hbyte (v / 64 % 32 + 192) (by omega)
    have hx := hbyte (v % 64 + 128) (by omega)
    have hv : (v / 64 % 32 + 192 - 0xC0) * 64 + (v % 64 + 128 - 0x80) = v := by omega
    refine ⟨_, _, rfl, Or.inr ?_⟩
    rw [start?, hb, if_neg (by omega), if_neg (by omega), if_pos (by omega)]
    refine ⟨_, rfl, ?_⟩
    dsimp only
    rw [complete_one (by omega), hx, hv, hc]
  split
  · have hb := hbyte (v / 4096 % 16 + 224) (by omega)
    have hx := hbyte (v / 64 % 64 + 128) (by omega)
    have hy := hbyte (v % 64 + 128) (by omega)
    have hv : ((v / 4096 % 16 + 224 - 0xE0) * 64 + (v / 64 % 64 + 128 - 0x80)) * 64 +
        (v % 64 + 128 - 0x80) = v := by omega
    refine ⟨_, _, rfl, Or.inr ?_⟩
    rw [start?, hb, if_neg (by omega), if_neg (by omega), if_neg (by omega), if_pos (by omega)]
    refine ⟨_, rfl, ?_⟩
    dsimp only
    rw [complete_succ (by split <;> split <;> omega), complete_one (by omega), hx, hy, hv, hc]
  · have hb := hbyte (v / 262144 % 8 + 240) (by omega)
    have hx := hbyte (v / 4096 % 64 + 128) (by omega)
    have hy := hbyte (v / 64 % 64 + 128) (by omega)
    have hz := hbyte (v % 64 + 128) (by omega)
    have hv : (((v / 262144 % 8 + 240 - 0xF0) * 64 + (v / 4096 % 64 + 128 - 0x80)) * 64 +
        (v / 64 % 64 + 128 - 0x80)) * 64 + (v % 64 + 128 - 0x80) = v := by omega
    refine ⟨_, _, rfl, Or.inr ?_⟩
    rw [start?, hb, if_neg (by omega), if_neg (by omega), if_neg (by omega), if_neg (by omega),
      if_pos (by omega)]
    refine ⟨_, rfl, ?_⟩
    dsimp only
    rw [complete_succ (by split <;> split <;> omega), complete_succ (by omega),
      complete_one (by omega), hx, hy, hz, hv, hc]

/-! ### Characters of which some bytes have been read -/

/-- These bytes of a character have been read: whatever completes it comes after them. -/
def Pending.Begins (p : Pending) (held : List UInt8) : Prop :=
  ∀ tail c, complete p.missing p.low p.high p.bits tail = some c →
    String.utf8EncodeChar c = held ++ tail

/-- These bytes have been read of a character, or none. -/
def Held : Option Pending → List UInt8 → Prop
  | none, held => held = []
  | some p, held => p.Begins held

/-- What is carried over to the next block, unless there is a fault. -/
def Ending.carried? : Ending → Option (Option Pending)
  | complete => some none
  | within p => some (some p)
  | fault _ => none

theorem encode_append (cs ds : List Char) : encode (cs ++ ds) = encode cs ++ encode ds :=
  List.flatMap_append

theorem encode_cons (c : Char) (cs : List Char) :
    encode (c :: cs) = String.utf8EncodeChar c ++ encode cs := List.flatMap_cons

variable {held : List UInt8}

/-- The bytes of a character go on with the next. -/
theorem Pending.Begins.next (h : p.Begins held) (hrange : p.low ≤ b.toNat ∧ b.toNat ≤ p.high)
    (hmissing : ¬ p.missing ≤ 1) (n : Nat) :
    Begins { p with
      held := n, missing := p.missing - 1, low := 0x80, high := 0xBF
      bits := p.bits * 64 + (b.toNat - 0x80) } (held ++ [b]) := by
  intro tail c hc
  rw [List.append_assoc]
  refine h (b :: tail) c ?_
  rw [complete, if_pos hrange]
  simpa only [if_neg hmissing] using hc

/-- The last byte of a character completes it. -/
theorem Pending.Begins.last (h : p.Begins held) (hrange : p.low ≤ b.toNat ∧ b.toNat ≤ p.high)
    (hmissing : p.missing ≤ 1) :
    String.utf8EncodeChar (Char.ofNat (p.bits * 64 + (b.toNat - 0x80))) = held ++ [b] := by
  refine h [b] _ ?_
  rw [complete, if_pos hrange]
  simp only [if_pos hmissing, if_true]

/-- Nothing completes a surrogate. -/
theorem Pending.begins_surrogate (p : Pending) :
    Begins { p with missing := 0, low := 1, high := 0 } held := by
  intro tail c hc
  cases tail with
  | nil => simp [complete] at hc
  | cons x tail =>
    have hempty : ¬ (1 ≤ x.toNat ∧ x.toNat ≤ 0) := by omega
    rw [complete, if_neg hempty] at hc
    simp at hc

/-- One more byte is the last of a character, or leaves one under way, or is at fault. -/
theorem Held.step {pending : Option Pending} (h : Held pending held) (position : Nat) (b : UInt8)
    (block : List UInt8) :
    (∃ c, String.utf8EncodeChar c = held ++ [b] ∧ scan position pending (b :: block) =
      (c :: (scan (position + 1) none block).1, (scan (position + 1) none block).2)) ∨
    (∃ p : Pending, p.Begins (held ++ [b]) ∧
      scan position pending (b :: block) = scan (position + 1) (some p) block) ∨
    ∃ f, scan position pending (b :: block) = ([], .fault f) := by
  cases pending with
  | none =>
    obtain rfl : held = [] := h
    rcases hstart : start? position b with _ | c | p
    · exact Or.inr (Or.inr ⟨⟨b, position, position, .start⟩, by rw [scan, hstart]⟩)
    · exact Or.inl ⟨c, encodeChar_of_start?_inl hstart, by rw [scan, hstart]⟩
    · have hbegins : p.Begins [b] := fun tail c hc => encodeChar_of_start?_inr hstart hc
      exact Or.inr (Or.inl ⟨p, hbegins, by rw [scan, hstart]⟩)
  | some p =>
    have hbegins : p.Begins held := h
    rw [scan]
    -- a byte in its range goes on with the character, and may be the last of it
    by_cases hrange : p.low ≤ b.toNat ∧ b.toNat ≤ p.high
    · rw [if_pos hrange]
      dsimp only
      by_cases hmissing : p.missing ≤ 1
      · rw [if_pos hmissing]
        exact Or.inl ⟨_, hbegins.last hrange hmissing, rfl⟩
      · rw [if_neg hmissing]
        exact Or.inr (Or.inl ⟨_, hbegins.next hrange hmissing _, rfl⟩)
    · rw [if_neg hrange]
      -- at the end of a block the start of a surrogate is kept, and no byte completes it
      by_cases hsurrogate : block = [] ∧ p.startsSurrogate b
      · rw [if_pos hsurrogate, hsurrogate.1]
        exact Or.inr (Or.inl ⟨_, p.begins_surrogate, rfl⟩)
      · rw [if_neg hsurrogate]
        exact Or.inr (Or.inr ⟨p.broken, rfl⟩)

/-- **The bytes of a block are those of its text**, but for the character that it ends within. -/
theorem encode_of_scan {pending pending' : Option Pending} {ending : Ending}
    (h : scan position pending block = (cs, ending)) (hpending : Held pending held)
    (hcarried : ending.carried? = some pending') :
    ∃ held', Held pending' held' ∧ held ++ block = encode cs ++ held' := by
  induction block generalizing position pending held cs with
  | nil =>
    cases pending with
    | none =>
      obtain ⟨rfl, rfl⟩ : [] = cs ∧ Ending.complete = ending := by simpa [scan] using h
      obtain rfl : none = pending' := by simpa [Ending.carried?] using hcarried
      exact ⟨[], rfl, by simp [encode, show held = [] from hpending]⟩
    | some p =>
      obtain ⟨rfl, rfl⟩ : [] = cs ∧ Ending.within p = ending := by simpa [scan] using h
      obtain rfl : some p = pending' := by simpa [Ending.carried?] using hcarried
      exact ⟨held, hpending, by simp [encode]⟩
  | cons b block ih =>
    have hbytes : held ++ b :: block = held ++ [b] ++ block := by simp
    rcases hpending.step position b block with ⟨c, hc, hscan⟩ | ⟨p, hp, hscan⟩ | ⟨f, hscan⟩
    · obtain ⟨rfl, rfl⟩ := Prod.mk.inj (hscan.symm.trans h)
      have hempty : Held none [] := rfl
      obtain ⟨held', hheld', heq⟩ := ih rfl hempty
      refine ⟨held', hheld', ?_⟩
      rw [hbytes, encode_cons, hc, List.append_assoc _ _ held', ← heq, List.nil_append]
    · obtain ⟨held', hheld', heq⟩ := ih (hscan.symm.trans h) hp
      exact ⟨held', hheld', hbytes.trans heq⟩
    · obtain ⟨-, rfl⟩ : [] = cs ∧ Ending.fault f = ending := by simpa using hscan.symm.trans h
      simp [Ending.carried?] at hcarried

/-! ### Bytes that are still to be read -/

/-- These bytes are those of a text, of whose first character some bytes may have been read. -/
def Spelt (bytes : List UInt8) : Option Pending → List Char → Prop
  | none, cs => bytes = encode cs
  | some p, cs => ∃ tail c cs', bytes = tail ++ encode cs' ∧ cs = c :: cs' ∧
      complete p.missing p.low p.high p.bits tail = some c

/-- One more byte of a text is the last of a character, or another character is under way. -/
theorem Spelt.step {pending : Option Pending} (h : Spelt (b :: bytes) pending cs)
    (position : Nat) :
    (∃ c later, cs = c :: later ∧ Spelt bytes none later ∧ ∀ block,
      scan position pending (b :: block) =
        (c :: (scan (position + 1) none block).1, (scan (position + 1) none block).2)) ∨
    ∃ p, Spelt bytes (some p) cs ∧ ∀ block,
      scan position pending (b :: block) = scan (position + 1) (some p) block := by
  cases pending with
  | none =>
    have hbytes : b :: bytes = encode cs := h
    cases cs with
    | nil => simp [encode] at hbytes
    | cons c cs =>
      -- the byte is the first of the next character
      obtain ⟨b', tail, htail, hstart⟩ := exists_start? position c
      rw [encode_cons, htail] at hbytes
      obtain ⟨rfl, hrest⟩ : b = b' ∧ bytes = tail ++ encode cs := by simpa using hbytes
      rcases hstart with ⟨rfl, hstart⟩ | ⟨p, hstart, hcomplete⟩
      · exact Or.inl ⟨c, cs, rfl, hrest, fun block => by rw [scan, hstart]⟩
      · exact Or.inr ⟨p, ⟨tail, c, cs, hrest, rfl, hcomplete⟩,
          fun block => by rw [scan, hstart]⟩
  | some p =>
    -- the byte goes on with the character under way, and may be the last of it
    obtain ⟨tail, c, cs, hbytes, rfl, hcomplete⟩ := h
    cases tail with
    | nil => simp [complete] at hcomplete
    | cons b' tail =>
      obtain ⟨rfl, hrest⟩ : b = b' ∧ bytes = tail ++ encode cs := by simpa using hbytes
      rw [complete] at hcomplete
      split at hcomplete
      · next hrange =>
        dsimp only at hcomplete
        split at hcomplete
        · next hmissing =>
          obtain ⟨rfl, rfl⟩ : tail = [] ∧ _ := by simpa using hcomplete
          refine Or.inl ⟨_, cs, rfl, hrest, fun block => ?_⟩
          rw [scan, if_pos hrange]
          dsimp only
          rw [if_pos hmissing]
        · next hmissing =>
          refine Or.inr ⟨{ p with
              held := p.held + 1, missing := p.missing - 1, low := 0x80, high := 0xBF
              bits := p.bits * 64 + (b.toNat - 0x80) },
            ⟨tail, c, cs, hrest, rfl, hcomplete⟩, fun block => ?_⟩
          rw [scan, if_pos hrange]
          dsimp only
          rw [if_neg hmissing]
      · simp at hcomplete

/-- **A block of the bytes of a text is read without a fault**, and what comes after the block are
the bytes of the rest of the text. -/
theorem scan_of_spelt {pending : Option Pending} (h : Spelt (block ++ rest) pending cs) :
    ∃ done later ending pending', cs = done ++ later ∧
      scan position pending block = (done, ending) ∧ ending.carried? = some pending' ∧
      Spelt rest pending' later := by
  -- on the block; a character may be under way at its start and at its end
  induction block generalizing position pending cs with
  | nil =>
    cases pending with
    | none => exact ⟨[], cs, .complete, none, rfl, rfl, rfl, h⟩
    | some p => exact ⟨[], cs, .within p, some p, rfl, rfl, rfl, h⟩
  | cons b block ih =>
    rcases h.step position with ⟨c, cs, rfl, hnext, hscan⟩ | ⟨p, hnext, hscan⟩
    · obtain ⟨done, later, ending, pending', rfl, hblock, hcarried, hlater⟩ := ih hnext
      exact ⟨c :: done, later, ending, pending', rfl, by rw [hscan, hblock], hcarried, hlater⟩
    · obtain ⟨done, later, ending, pending', hcs, hblock, hcarried, hlater⟩ := ih hnext
      exact ⟨done, later, ending, pending', hcs, (hscan block).trans hblock, hcarried, hlater⟩

/-! ### Files -/

theorem flatten_blocks (bytes : List UInt8) : (blocks bytes).flatten = bytes := by
  fun_induction blocks bytes with
  | case1 => rfl
  | case2 bytes hne ih => rw [List.flatten_cons, ih, List.take_append_drop]

theorem encode_of_decodeBlocks {pending : Option Pending} {all : List (List UInt8)}
    (hpending : Held pending held) (h : (decodeBlocks pending all).fault = none) :
    encode (decodeBlocks pending all).text = held ++ all.flatten := by
  -- on the blocks; what is held of a character is carried over to the next of them
  induction all generalizing pending held with
  | nil =>
    cases pending with
    | none => simp [decodeBlocks, encode, show held = [] from hpending]
    | some p => simp [decodeBlocks] at h
  | cons block all ih =>
    have hcarried : Held (pending.map fun p => { p with position := 0 }) held := by
      cases pending with
      | none => exact hpending
      | some p => exact hpending
    rw [decodeBlocks] at h ⊢
    dsimp only at h ⊢
    rcases hscan : scan _ _ block with ⟨cs, _ | p | f⟩
    · rw [hscan] at h
      obtain ⟨held', hheld', heq⟩ := encode_of_scan hscan hcarried rfl
      have hrest : encode (decodeBlocks none all).text = held' ++ all.flatten := ih hheld' h
      simp only [encode_append, hrest, List.flatten_cons]
      rw [← List.append_assoc, ← heq, List.append_assoc]
    · rw [hscan] at h
      obtain ⟨held', hheld', heq⟩ := encode_of_scan hscan hcarried rfl
      have hrest : encode (decodeBlocks (some { p with position := 0 }) all).text =
          held' ++ all.flatten := ih hheld' h
      simp only [encode_append, hrest, List.flatten_cons]
      rw [← List.append_assoc, ← heq, List.append_assoc]
    · rw [hscan] at h
      simp at h

/-- The blocks of the bytes of a text are read without a fault, wherever they are cut. -/
theorem decodeBlocks_of_spelt {pending : Option Pending} {all : List (List UInt8)}
    (h : Spelt all.flatten pending cs) : decodeBlocks pending all = { text := cs } := by
  induction all generalizing pending cs with
  | nil =>
    cases pending with
    | none =>
      have hbytes : encode cs = [] := h.symm
      cases cs with
      | nil => rfl
      | cons c cs =>
        -- a character has at least one byte, and there are no more
        obtain ⟨b, tail, htail, -⟩ := exists_start? 0 c
        rw [encode_cons, htail] at hbytes
        simp at hbytes
    | some p =>
      -- a character under way lacks a byte, and there are no more
      obtain ⟨tail, c, cs', hbytes, -, hcomplete⟩ := h
      obtain rfl : tail = [] := (List.append_eq_nil_iff.1 hbytes.symm).1
      simp [complete] at hcomplete
  | cons block all ih =>
    have hcarried : Spelt (block ++ all.flatten)
        (pending.map fun p => { p with position := 0 }) cs := by
      cases pending with
      | none => exact h
      | some p => exact h
    rw [decodeBlocks]
    dsimp only
    obtain ⟨done, later, ending, pending', rfl, hscan, hending, hlater⟩ := scan_of_spelt hcarried
    rw [hscan]
    cases ending with
    | complete =>
      obtain rfl : none = pending' := by simpa [Ending.carried?] using hending
      simp only [ih hlater]
    | within p =>
      obtain rfl : some p = pending' := by simpa [Ending.carried?] using hending
      have hagain : Spelt all.flatten (some { p with position := 0 }) later := hlater
      simp only [ih hagain]
    | fault f => simp [Ending.carried?] at hending

/-- **A file that can be read to its end has the bytes of a text**, and that text is what is read,
line ends unified. -/
theorem exists_encode_of_decode (h : decode bytes = { text := cs }) :
    ∃ raw, encode raw = bytes ∧ unifyLineEnds raw = cs := by
  rw [decode] at h
  dsimp only at h
  split at h
  · next hfault =>
    refine ⟨_, ?_, by simpa using h⟩
    have hempty : Held none [] := rfl
    rw [encode_of_decodeBlocks hempty hfault, List.nil_append, flatten_blocks]
  · simp at h

/-- **The bytes of a text can be read to their end**, into that text, line ends unified. -/
theorem decode_encode (raw : List Char) : decode (encode raw) = { text := unifyLineEnds raw } := by
  have hspelt : Spelt (blocks (encode raw)).flatten none raw := flatten_blocks _
  rw [decode, decodeBlocks_of_spelt hspelt]

/-- A file can be read to its end if and only if its bytes are those of a text. -/
theorem decode_eq_iff :
    decode bytes = { text := cs } ↔ ∃ raw, encode raw = bytes ∧ unifyLineEnds raw = cs := by
  refine ⟨exists_encode_of_decode, ?_⟩
  rintro ⟨raw, rfl, rfl⟩
  exact decode_encode raw

end Offside.Text.Utf8
