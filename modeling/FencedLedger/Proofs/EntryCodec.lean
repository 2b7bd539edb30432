import FencedLedger.Entry

/-!
# The words of an entry

Writing an entry and reading it are inverse to each other, in both directions: the
readers find the words and the payload that were written, and an entry with room for
three words is written again from what they find. The words are written with the most
significant byte first. Each reader needs a length of its own and says so; two of them find
the same ledger. A fence marker has the header of no entry of a writer and no third word.
-/

namespace FencedLedger.Entry

variable {entry : Bytes} {l : LedgerId} {e c : EntryId} {payload rest : Bytes}

/-! ### Words one after another -/

theorem wordAt_zero_append (x : Int64) (rest : Bytes) :
    wordAt 0 (BigEndian.encodeWord x ++ rest) = x := by
  unfold wordAt
  rw [List.drop_zero, List.take_left' (BigEndian.length_encodeWord x),
    BigEndian.decodeWord_encodeWord]

theorem wordAt_add_append (offset : Nat) (x : Int64) (rest : Bytes) :
    wordAt (8 + offset) (BigEndian.encodeWord x ++ rest) = wordAt offset rest := by
  have hx := BigEndian.length_encodeWord x
  unfold wordAt
  rw [← List.drop_drop, List.drop_left' hx]

/-- A word is written as the bytes that it was read from. -/
theorem encodeWord_wordAt_append {offset : Nat} (hlong : offset + 8 ≤ entry.length) :
    BigEndian.encodeWord (wordAt offset entry) ++ entry.drop (offset + 8) = entry.drop offset := by
  have hword : ((entry.drop offset).take 8).length = 8 := by
    simp only [List.length_take, List.length_drop]
    omega
  unfold wordAt
  rw [BigEndian.encodeWord_decodeWord hword, ← List.drop_drop, List.take_append_drop]

/-- A word stands at the offset, with the most significant of its bytes first. -/
def Stands (x : Int64) (offset : Nat) (entry : Bytes) : Prop :=
  ∀ i < 8, entry[offset + i]? = some (UInt8.ofNat (x.toUInt64.toNat >>> (8 * (7 - i))))

theorem stands_append (before : Bytes) (x : Int64) (rest : Bytes) :
    Stands x before.length (before ++ BigEndian.encodeWord x ++ rest) := by
  intro i hi
  rw [List.append_assoc, List.getElem?_append_right (Nat.le_add_right _ _),
    Nat.add_sub_cancel_left, List.getElem?_append_left (by rwa [BigEndian.length_encodeWord])]
  exact BigEndian.getElem?_encode x.toUInt64.toNat hi

/-! ### The readers -/

/-- A reader needs so many bytes, and tells a shorter entry what it has and what it lacks. -/
structure Needs {α : Type} (read : Bytes → Except TooShort α) (required : Nat) : Prop where
  enough : ∀ entry, (∃ a, read entry = .ok a) ↔ required ≤ entry.length
  short : ∀ entry, entry.length < required → read entry = .error ⟨entry.length, required⟩

/-- All readers are made alike: they look at the length, and then at the bytes. -/
theorem needs_of_ite {α : Type} {required : Nat} {read : Bytes → Except TooShort α}
    {found : Bytes → α} (hread : ∀ entry, read entry =
      if entry.length < required then .error ⟨entry.length, required⟩ else .ok (found entry)) :
    Needs read required where
  enough entry := by
    rw [hread]
    split
    next hshort => simpa using hshort
    next hlong => simpa using Nat.le_of_not_lt hlong
  short entry hshort := by rw [hread, if_pos hshort]

theorem readLedger_needs : Needs readLedger 8 := needs_of_ite fun _ => rfl

theorem readHeader_needs : Needs readHeader 16 := needs_of_ite fun _ => rfl

/-- An entry tells of a confirmed one when it has a third word. -/
theorem isSome_confirmed? (entry : Bytes) :
    (confirmed? entry).isSome = true ↔ 24 ≤ entry.length := by
  unfold confirmed?
  split
  next hshort => simpa using hshort
  next hlong => simpa using Nat.le_of_not_lt hlong

/-- The handle and the store read the same ledger off an entry. -/
theorem readLedger_of_readHeader {header : Header} (h : readHeader entry = .ok header) :
    readLedger entry = .ok header.ledger := by
  unfold readHeader at h
  split at h
  next => cases h
  next hlong =>
    cases h
    exact if_neg (by omega)

/-- The header is read off two words, whatever follows. -/
theorem readHeader_append (l : LedgerId) (e : EntryId) (rest : Bytes) :
    readHeader (BigEndian.encodeWord l.value ++ BigEndian.encodeWord e.value ++ rest) =
      .ok ⟨l, e⟩ := by
  have hl := BigEndian.length_encodeWord l.value
  have he := BigEndian.length_encodeWord e.value
  unfold readHeader
  rw [if_neg (by simp only [List.length_append, hl, he]; omega), List.append_assoc,
    wordAt_zero_append, wordAt_add_append 0, wordAt_zero_append]

/-- An entry with a header opens with the words of the two ids in it. -/
theorem eq_of_readHeader (h : readHeader entry = .ok ⟨l, e⟩) :
    ∃ rest, entry = BigEndian.encodeWord l.value ++ BigEndian.encodeWord e.value ++ rest := by
  unfold readHeader at h
  split at h
  next => cases h
  next hlong =>
    cases h
    refine ⟨entry.drop 16, ?_⟩
    rw [List.append_assoc, encodeWord_wordAt_append (by omega), encodeWord_wordAt_append (by omega),
      List.drop_zero]

/-! ### Writing and reading -/

/-- The readers find these words in an entry, and this payload behind them. -/
structure Reads (entry : Bytes) (l : LedgerId) (e c : EntryId) (payload : Bytes) : Prop where
  ledger : readLedger entry = .ok l
  header : readHeader entry = .ok ⟨l, e⟩
  confirmed : confirmed? entry = some c
  payload : entry.drop 24 = payload

/-- What was written is what the readers find. -/
theorem reads_encode (l : LedgerId) (e c : EntryId) (payload : Bytes) :
    Reads (encode l e c payload) l e c payload := by
  have hl := BigEndian.length_encodeWord l.value
  have he := BigEndian.length_encodeWord e.value
  have hc := BigEndian.length_encodeWord c.value
  have hheader : readHeader (encode l e c payload) = .ok ⟨l, e⟩ := by
    rw [encode, List.append_assoc]
    exact readHeader_append l e _
  have hconfirmed : confirmed? (encode l e c payload) = some c := by
    unfold confirmed? encode
    rw [if_neg (by simp only [List.length_append, hl, he, hc]; omega), List.append_assoc,
      List.append_assoc, wordAt_add_append 8, wordAt_add_append 0, wordAt_zero_append]
  refine ⟨readLedger_of_readHeader hheader, hheader, hconfirmed, ?_⟩
  exact List.drop_left' (by simp only [List.length_append, hl, he, hc])

/-- An entry that was written has its words where the readers look for them. -/
theorem stands_encode (l : LedgerId) (e c : EntryId) (payload : Bytes) :
    Stands l.value 0 (encode l e c payload) ∧ Stands e.value 8 (encode l e c payload) ∧
      Stands c.value 16 (encode l e c payload) := by
  have hl := BigEndian.length_encodeWord l.value
  have he := BigEndian.length_encodeWord e.value
  unfold encode
  refine ⟨?_, ?_, ?_⟩
  · rw [List.append_assoc, List.append_assoc]
    exact stands_append [] l.value _
  · rw [List.append_assoc]
    exact hl ▸ stands_append (BigEndian.encodeWord l.value) e.value _
  · have hle : (BigEndian.encodeWord l.value ++ BigEndian.encodeWord e.value).length = 16 := by
      rw [List.length_append, hl, he]
    exact hle ▸ stands_append _ c.value payload

/-- An entry with room for three words is written again from what is read. -/
theorem encode_wordAt (hlong : 24 ≤ entry.length) :
    encode ⟨wordAt 0 entry⟩ ⟨wordAt 8 entry⟩ ⟨wordAt 16 entry⟩ (entry.drop 24) = entry := by
  calc BigEndian.encodeWord (wordAt 0 entry) ++ BigEndian.encodeWord (wordAt 8 entry) ++
        BigEndian.encodeWord (wordAt 16 entry) ++ entry.drop 24
      = BigEndian.encodeWord (wordAt 0 entry) ++ (BigEndian.encodeWord (wordAt 8 entry) ++
          (BigEndian.encodeWord (wordAt 16 entry) ++ entry.drop (16 + 8))) := by
        simp only [List.append_assoc]
    _ = BigEndian.encodeWord (wordAt 0 entry) ++ (BigEndian.encodeWord (wordAt 8 entry) ++
          entry.drop (8 + 8)) := by rw [encodeWord_wordAt_append (by omega)]
    _ = BigEndian.encodeWord (wordAt 0 entry) ++ entry.drop (0 + 8) := by
        rw [encodeWord_wordAt_append (by omega)]
    _ = entry := by rw [encodeWord_wordAt_append (by omega), List.drop_zero]

/-- What the readers find in an entry is what it was written from. -/
theorem Reads.eq_encode (h : Reads entry l e c payload) : entry = encode l e c payload := by
  have hlong := (isSome_confirmed? entry).mp (by rw [h.confirmed]; rfl)
  have hfound := reads_encode ⟨wordAt 0 entry⟩ ⟨wordAt 8 entry⟩ ⟨wordAt 16 entry⟩ (entry.drop 24)
  rw [encode_wordAt hlong] at hfound
  cases hfound.header.symm.trans h.header
  cases hfound.confirmed.symm.trans h.confirmed
  rw [← h.payload, encode_wordAt hlong]

/-- The readers of an entry with room for three words all succeed. -/
theorem exists_reads (hlong : 24 ≤ entry.length) :
    ∃ l e c, Reads entry l e c (entry.drop 24) := by
  have hfound := reads_encode ⟨wordAt 0 entry⟩ ⟨wordAt 8 entry⟩ ⟨wordAt 16 entry⟩ (entry.drop 24)
  rw [encode_wordAt hlong] at hfound
  exact ⟨_, _, _, hfound⟩

/-! ### Fence markers -/

theorem length_fenceMarker (l : LedgerId) : (fenceMarker l).length = 16 := by
  simp [fenceMarker]

/-- A fence marker has the header of no entry of a writer. -/
theorem readHeader_fenceMarker (l : LedgerId) :
    readHeader (fenceMarker l) = .ok ⟨l, fenceMarkerId⟩ := by
  have hmarker := readHeader_append l fenceMarkerId []
  rwa [List.append_nil] at hmarker

theorem confirmed?_fenceMarker (l : LedgerId) : confirmed? (fenceMarker l) = none :=
  if_pos (by rw [length_fenceMarker]; decide)

/-- A fence marker is for one ledger. -/
theorem fenceMarker_injective : Function.Injective fenceMarker := by
  intro l l' heq
  have hheader := readHeader_fenceMarker l
  rw [heq, readHeader_fenceMarker] at hheader
  cases hheader
  rfl

/-- No entry with a third word is a fence marker. -/
theorem fenceMarker_ne_encode (l l' : LedgerId) (e c : EntryId) (payload : Bytes) :
    fenceMarker l ≠ encode l' e c payload := by
  intro heq
  have hconfirmed := (reads_encode l' e c payload).confirmed
  rw [← heq, confirmed?_fenceMarker] at hconfirmed
  cases hconfirmed

/-- An entry is a marker that a ledger is fenced, as far as its readers can tell. -/
structure Marks (entry : Bytes) (l : LedgerId) : Prop where
  length : entry.length = 16
  ledger : readLedger entry = .ok l
  header : readHeader entry = .ok ⟨l, ⟨-0x2000⟩⟩
  isMeta : (⟨l, ⟨-0x2000⟩⟩ : Header).isMeta = true
  confirmed : confirmed? entry = none

theorem fenceMarker_marks (l : LedgerId) : Marks (fenceMarker l) l where
  length := length_fenceMarker l
  ledger := readLedger_of_readHeader (readHeader_fenceMarker l)
  header := readHeader_fenceMarker l
  isMeta := (by decide : (!(⟨-0x2000⟩ : EntryId).isUser) = true)
  confirmed := confirmed?_fenceMarker l

/-- Writing and reading entries are inverse to each other, the readers agree and say how
many bytes they need, and fence markers are apart from all that is written with three
words, which stand one after another. -/
theorem codec_bijective :
    (∀ l e c payload, Reads (encode l e c payload) l e c payload) ∧
    (∀ entry, 24 ≤ entry.length → ∃ l e c,
      Reads entry l e c (entry.drop 24) ∧ encode l e c (entry.drop 24) = entry) ∧
    Needs readLedger 8 ∧ Needs readHeader 16 ∧
    (∀ entry, (∃ c, confirmed? entry = some c) ↔ 24 ≤ entry.length) ∧
    (∀ entry l header, readLedger entry = .ok l → readHeader entry = .ok header →
      header.ledger = l) ∧
    (∀ l, Marks (fenceMarker l) l) ∧ Function.Injective fenceMarker ∧
    (∀ l l' e c payload, fenceMarker l ≠ encode l' e c payload) ∧
    ∀ l e c payload, Stands l.value 0 (encode l e c payload) ∧
      Stands e.value 8 (encode l e c payload) ∧ Stands c.value 16 (encode l e c payload) := by
  refine ⟨reads_encode, ?_, readLedger_needs, readHeader_needs, ?_, ?_, fenceMarker_marks,
    fenceMarker_injective, fenceMarker_ne_encode, stands_encode⟩
  · intro entry hlong
    obtain ⟨l, e, c, hreads⟩ := exists_reads hlong
    exact ⟨l, e, c, hreads, hreads.eq_encode.symm⟩
  · intro entry
    rw [← isSome_confirmed?, Option.isSome_iff_exists]
  · intro entry l header hledger hheader
    cases (readLedger_of_readHeader hheader).symm.trans hledger
    rfl

end FencedLedger.Entry
