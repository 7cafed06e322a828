import HVault.Totp.MigrationWire

/-!
# Exports are read back

An export says of each account what its fields encode (`Encodes`), in any order and among unknown
fields. `readMigrationPayload_inverts` says that every such export is read as what it says, and that
nothing else is accepted.
-/

namespace HVault.Totp

open Json Backup DocumentCrypto Archive ProtoWire List Option

/-! ## What an export says -/

/-- A label that is clean already. -/
structure IsLabel (nfc : Utf16 → Utf16) (label : Utf16) : Prop where
  wellFormed : Utf8.isWellFormed label
  chars : ∀ char ∈ codePoints label, ¬isStripped (codePointAt char)
  composed : nfc label = label
  trimmed : trim label = label
  length : label.length ≤ maxLabelLength
  bytes : (Utf8.encode label).length ≤ maxLabelBytes

/-- A text in the field of a number, which may be left out when it is empty. -/
def EncodesText (fs : List Field) (number : ℕ) (text : Utf16) : Prop :=
  bodies fs number = [.bytes (Utf8.encode text)] ∨ bodies fs number = [] ∧ text = []

/-- A spelling of an `int32`: at most five bytes, or ten when it is negative. -/
inductive SpellsInt32 : ℤ → Body → Prop
  | small {n width : ℕ} : n < 2 ^ 31 → width ≤ 5 → SpellsInt32 n (.varint n width)
  | negative {n width : ℕ} : 0 < n → n ≤ 2 ^ 31 → SpellsInt32 (-n) (.varint (2 ^ 64 - n) width)

/-- A number that stands for a value in a table, in the field of a number; zero may be left out. -/
def EncodesEnum {α : Type} (fs : List Field) (number : ℕ) (table : ℤ → Option α) (value : α) : Prop :=
  (∃ z body, bodies fs number = [body] ∧ SpellsInt32 z body ∧ table z = some value) ∨
    bodies fs number = [] ∧ table 0 = some value

/-- A number in the field of a number; zero may be left out. -/
def EncodesInt (fs : List Field) (number : ℕ) (z : ℤ) : Prop :=
  (∃ body, bodies fs number = [body] ∧ SpellsInt32 z body) ∨ bodies fs number = [] ∧ z = 0

/-- The fields that encode an account. A label may carry the issuer before a colon. -/
structure Encodes (nfc : Utf16 → Utf16) (entry : MigrationEntry) (fs : List Field) : Prop where
  secret : bodies fs 1 = [.bytes entry.secret]
  labels : ∃ label issuer, IsLabel nfc label ∧ IsLabel nfc issuer ∧ EncodesText fs 2 label ∧
    EncodesText fs 3 issuer ∧ splitLabel label issuer = (entry.issuer, entry.name)
  algorithm : EncodesEnum fs 4 algorithms entry.algorithm
  digits : EncodesEnum fs 5 digitCounts entry.digits
  type : EncodesEnum fs 6 otpTypes entry.type
  counter : (∃ n width, bodies fs 7 = [.varint n width] ∧
    entry.counter = if entry.type = .hotp then some (decimal n) else none) ∨
    bodies fs 7 = [] ∧ entry.counter = none

/-- The bytes of an account. -/
inductive EncodedAccount (nfc : Utf16 → Utf16) : Body → MigrationEntry → Prop
  | mk {bs : Bytes} {fs : List Field} {entry : MigrationEntry} : Message fs bs →
    fs.length ≤ maxFieldsPerMessage → Encodes nfc entry fs → minSecretBytes ≤ entry.secret.length →
    entry.secret.length ≤ maxSecretBytes → EncodedAccount nfc (.bytes bs) entry

/-- The fields that encode a part of an export; that it is one of one may be left out. -/
structure EncodesExport (nfc : Utf16 → Utf16) (payload : MigrationPayload) (fs : List Field) :
    Prop where
  entries : List.Forall₂ (EncodedAccount nfc) (bodies fs 1) payload.entries
  version : EncodesInt fs 2 payload.version
  batchSize : EncodesInt fs 3 payload.batchSize ∨ EncodesInt fs 3 0 ∧ payload.batchSize = 1
  batchIndex : EncodesInt fs 4 payload.batchIndex
  batchId : EncodesInt fs 5 payload.batchId

/-- What an export may be. -/
structure ValidExport (payload : MigrationPayload) : Prop where
  nonempty : payload.entries ≠ []
  entriesBound : payload.entries.length ≤ maxOtpParameters
  version : 0 ≤ payload.version
  batchSize : 0 < payload.batchSize
  sizeBound : payload.batchSize ≤ maxBatchSize
  batchIndex : 0 ≤ payload.batchIndex
  indexBound : payload.batchIndex < payload.batchSize

/-! ## What is encoded is read -/

variable {nfc : Utf16 → Utf16}

theorem cleanLabel_eq {label : Utf16} (h : IsLabel nfc label) : cleanLabel nfc label = label := by
  unfold cleanLabel
  have hkept : (codePoints label).filter (fun char => !isStripped (codePointAt char)) =
      codePoints label := by
    rw [filter_eq_self]
    intro char hchar
    simpa using h.chars char hchar
  rw [hkept, codePoints_flatten, h.composed, h.trimmed, take_of_length_le h.length]

theorem labelOf_encode {label : Utf16} (h : IsLabel nfc label) :
    labelOf nfc (.bytes (Utf8.encode label)) = some label := by
  have hmark : label.head? ≠ some 0xFEFF := by
    intro hhead
    cases label with
    | nil => cases hhead
    | cons u rest =>
      cases hhead
      refine h.chars [0xFEFF] ?_ rfl
      cases rest with
      | nil => exact mem_singleton.2 rfl
      | cons v rest => exact mem_cons_self
  show (if (Utf8.encode label).length > maxLabelBytes then none
    else some (cleanLabel nfc (Utf8.decode (Utf8.encode label)))) = _
  rw [if_neg (Nat.not_lt.2 h.bytes), Utf8.decode_encode h.wellFormed hmark, cleanLabel_eq h]

variable {z : ℤ} {body : Body}

theorem intOf_spelled (h : SpellsInt32 z body) : intOf body = some z := by
  cases h with
  | @small n width hn hwidth =>
    have hmax : n ≤ maxInt32 := Nat.le_pred_of_lt hn
    exact if_pos ⟨hmax, hwidth⟩
  | @negative n width hpos hn =>
    have hmax : ¬(2 ^ 64 - n ≤ maxInt32 ∧ width ≤ maxUint32VarintBytes) := by
      rintro ⟨hle, -⟩
      have hle : 2 ^ 64 - n ≤ 2 ^ 31 - 1 := hle
      omega
    have hmin : 2 ^ 64 - n ≥ minSignExtendedInt32 := Nat.sub_le_sub_left hn _
    show int32Of _ _ = _
    unfold int32Of
    rw [if_neg hmax, if_pos hmin]
    congr 1
    omega

variable {fs : List Field} {number : ℕ}

/-- A text as a walk finds it. -/
theorem EncodesText.found {text : Utf16} (h : EncodesText fs number text)
    (htext : IsLabel nfc text) :
    ∃ value : Option Utf16, (bodies fs number).map (labelOf nfc) = value.toList.map some ∧
      value.getD [] = text := by
  rcases h with hbodies | ⟨hbodies, rfl⟩
  · refine ⟨some text, ?_, rfl⟩
    rw [hbodies, map_singleton, labelOf_encode htext]
    rfl
  · exact ⟨none, by rw [hbodies]; rfl, rfl⟩

/-- A number that stands for a value as a walk finds it. -/
theorem EncodesEnum.found {α : Type} {table : ℤ → Option α} {value : α}
    (h : EncodesEnum fs number table value) (zero : α) (hzero : table 0 = some zero) :
    ∃ found : Option α, (bodies fs number).map (fun body => intOf body >>= table) =
      found.toList.map some ∧ found.getD zero = value := by
  rcases h with ⟨z, body, hbodies, hspells, htable⟩ | ⟨hbodies, htable⟩
  · refine ⟨some value, ?_, rfl⟩
    rw [hbodies, map_singleton, intOf_spelled hspells]
    exact congrArg (fun found => [found]) htable
  · refine ⟨none, by rw [hbodies]; rfl, ?_⟩
    rw [hzero] at htable
    exact some.inj htable

theorem EncodedAccount.account {entry : MigrationEntry} (h : EncodedAccount nfc body entry) :
    Account nfc body entry := by
  obtain ⟨hmessage, hlength, hencodes, hmin, hmax⟩ := h
  obtain ⟨label, issuer, hlabel, hissuer, hname, hissuerField, hsplit⟩ := hencodes.labels
  obtain ⟨nameRead, hnameRead, hnameGet⟩ := hname.found hlabel
  obtain ⟨issuerRead, hissuerRead, hissuerGet⟩ := hissuerField.found hissuer
  obtain ⟨algorithm, halgorithm, halgorithmGet⟩ := hencodes.algorithm.found .sha1 rfl
  obtain ⟨digits, hdigits, hdigitsGet⟩ := hencodes.digits.found 6 rfl
  obtain ⟨type, htype, htypeGet⟩ := hencodes.type.found .totp rfl
  have hhotp : type = some .hotp ↔ entry.type = .hotp := by
    rw [← htypeGet]
    cases type <;> simp
  obtain ⟨counter, hcounter, hcounterIf⟩ : ∃ counter : Option Utf16,
      (bodies _ 7).map (fun body => (natOf body).map decimal) = counter.toList.map some ∧
      (if type = some .hotp then counter else none) = entry.counter := by
    rcases hencodes.counter with ⟨n, width, hbodies, hcounter⟩ | ⟨hbodies, hcounter⟩
    · refine ⟨some (decimal n), by rw [hbodies]; rfl, ?_⟩
      rw [hcounter]
      simp only [hhotp]
    · exact ⟨none, by rw [hbodies]; rfl, by rw [hcounter, ite_self]⟩
  have hentry : entryOf ⟨some entry.secret, nameRead, issuerRead, algorithm, digits, type, counter⟩
      entry.secret = entry := by
    unfold entryOf
    simp only [hnameGet, hissuerGet, hsplit, halgorithmGet, hdigitsGet, htypeGet, hcounterIf]
  rw [← hentry]
  refine .mk hmessage hlength ⟨?_, hnameRead, hissuerRead, halgorithm, hdigits, htype, hcounter⟩ rfl
    hmin hmax
  rw [hencodes.secret]
  rfl

theorem EncodesInt.latest (h : EncodesInt fs number z) {decode : Body → Option ℤ}
    (hdecode : ∀ body, intOf body = some z → decode body = some z) :
    Latest fs number decode z := by
  rcases h with ⟨body, hbodies, hspells⟩ | ⟨hbodies, rfl⟩
  · refine ⟨[z], ?_, rfl⟩
    rw [hbodies, map_singleton, hdecode body (intOf_spelled hspells)]
    rfl
  · exact ⟨[], by rw [hbodies]; rfl, rfl⟩

theorem countOf_eq (hz : 0 ≤ z) (body : Body) (h : intOf body = some z) :
    countOf body = some z := by
  unfold countOf
  rw [h]
  exact if_neg (not_lt.2 hz)

variable {payload : MigrationPayload}

theorem EncodesExport.isExport (h : EncodesExport nfc payload fs) (hvalid : ValidExport payload) :
    IsExport nfc fs payload where
  entries := h.entries.imp fun _ _ haccount => haccount.account
  version := h.version.latest (countOf_eq hvalid.version)
  batchSize := by
    rcases h.batchSize with hsize | ⟨hsize, hone⟩
    · exact ⟨_, hsize.latest (countOf_eq hvalid.batchSize.le), (if_neg hvalid.batchSize.ne').symm⟩
    · exact ⟨0, hsize.latest (countOf_eq le_rfl), hone⟩
  batchIndex := h.batchIndex.latest (countOf_eq hvalid.batchIndex)
  batchId := h.batchId.latest fun _ hbody => hbody
  nonempty := hvalid.nonempty
  entriesBound := hvalid.entriesBound
  sizeBound := hvalid.sizeBound
  indexBound := hvalid.indexBound

/-! ## What is refused -/

/-- An account has a field of a scalar twice. -/
def RepeatsScalar (fs : List Field) : Prop :=
  ∃ bs account number, .bytes bs ∈ bodies fs 1 ∧ Message account bs ∧ 1 ≤ number ∧ number ≤ 7 ∧
    1 < (bodies account number).length

/-- A number of the payload or of an account is spelled otherwise than an `int32` is. -/
def Misspells (fs : List Field) : Prop :=
  (∃ number body, 2 ≤ number ∧ number ≤ 5 ∧ body ∈ bodies fs number ∧ ∀ z, ¬SpellsInt32 z body) ∨
    ∃ bs account number body, .bytes bs ∈ bodies fs 1 ∧ Message account bs ∧ 4 ≤ number ∧
      number ≤ 6 ∧ body ∈ bodies account number ∧ ∀ z, ¬SpellsInt32 z body

theorem message_writes {bs : Bytes} (h : Message fs bs) (hbody : body ∈ bodies fs number) :
    ∃ written, body.Writes written := by
  induction h with
  | nil => cases hbody
  | cons hfield _ ih =>
    rw [bodies_cons] at hbody
    split at hbody
    · rcases mem_cons.1 hbody with rfl | hrest
      · cases hfield with
        | mk _ _ hwrites => exact ⟨_, hwrites⟩
      · exact ih hrest
    · exact ih hbody

theorem spells_of_intOf {written : Bytes} (h : intOf body = some z)
    (hwrites : body.Writes written) : SpellsInt32 z body := by
  cases hwrites with
  | @varint n _ hvarint =>
    have hn := hvarint.bound
    have h : int32Of n written.length = some z := h
    unfold int32Of at h
    split_ifs at h with hsmall hlarge
    · cases h
      have hmax : n ≤ 2 ^ 31 - 1 := hsmall.1
      exact .small (by omega) hsmall.2
    · have hmin : n ≥ 2 ^ 64 - 2 ^ 31 := hlarge
      have hspells := @SpellsInt32.negative (2 ^ 64 - n) written.length (by omega) (by omega)
      have hback : 2 ^ 64 - (2 ^ 64 - n) = n := by omega
      have hz : -((2 ^ 64 - n : ℕ) : ℤ) = z := by
        have hz := some.inj h
        omega
      rwa [hback, hz] at hspells
  | _ => cases h

theorem length_found {α : Type} {decode : Body → Option α} {value : Option α}
    (h : (bodies fs number).map decode = value.toList.map some) :
    (bodies fs number).length ≤ 1 := by
  have hlength := congrArg length h
  rw [length_map, length_map] at hlength
  rw [hlength]
  cases value <;> simp

theorem IsAccount.once {read : OtpFields} (h : IsAccount nfc fs read) (hlow : 1 ≤ number)
    (hhigh : number ≤ 7) :
    (bodies fs number).length ≤ 1 := by
  interval_cases number
  · exact length_found h.secret
  · exact length_found h.name
  · exact length_found h.issuer
  · exact length_found h.algorithm
  · exact length_found h.digits
  · exact length_found h.type
  · exact length_found h.counter

theorem IsExport.account (h : IsExport nfc fs payload) {bs : Bytes}
    (hbody : .bytes bs ∈ bodies fs 1) {account : List Field} (hmessage : Message account bs) :
    ∃ read, IsAccount nfc account read := by
  obtain ⟨i, hi, hget⟩ := getElem_of_mem hbody
  have hi' : i < payload.entries.length := by rwa [← h.entries.length_eq]
  have haccount := h.entries.get hi hi'
  rw [get_eq_getElem, hget] at haccount
  generalize payload.entries.get ⟨i, hi'⟩ = entry at haccount
  cases haccount with
  | mk hmessage' _ haccount =>
    rw [hmessage.unique hmessage']
    exact ⟨_, haccount⟩

theorem IsExport.not_repeats (h : IsExport nfc fs payload) : ¬RepeatsScalar fs := by
  rintro ⟨bs, account, number, hbody, hmessage, hlow, hhigh, hlength⟩
  obtain ⟨read, haccount⟩ := h.account hbody hmessage
  have honce := haccount.once hlow hhigh
  omega

/-- What is found of a field was read of it. -/
theorem read_of_mem {α : Type} {bs : List Body} {decode : Body → Option α} {values : List α}
    (h : bs.map decode = values.map some) (hbody : body ∈ bs) :
    ∃ a, decode body = some a := by
  have hmem : decode body ∈ values.map some := h ▸ mem_map_of_mem hbody
  obtain ⟨a, -, ha⟩ := mem_map.1 hmem
  exact ⟨a, ha.symm⟩

theorem int_of_count (h : countOf body = some z) : ∃ z, intOf body = some z := by
  obtain ⟨z, hz, -⟩ := bind_eq_some_iff.1 h
  exact ⟨z, hz⟩

theorem IsExport.int (h : IsExport nfc fs payload) (hlow : 2 ≤ number) (hhigh : number ≤ 5)
    (hbody : body ∈ bodies fs number) : ∃ z, intOf body = some z := by
  interval_cases number
  · obtain ⟨values, hvalues, -⟩ := h.version
    obtain ⟨z, hz⟩ := read_of_mem hvalues hbody
    exact int_of_count hz
  · obtain ⟨size, ⟨values, hvalues, -⟩, -⟩ := h.batchSize
    obtain ⟨z, hz⟩ := read_of_mem hvalues hbody
    exact int_of_count hz
  · obtain ⟨values, hvalues, -⟩ := h.batchIndex
    obtain ⟨z, hz⟩ := read_of_mem hvalues hbody
    exact int_of_count hz
  · obtain ⟨values, hvalues, -⟩ := h.batchId
    exact read_of_mem hvalues hbody

theorem IsAccount.int {read : OtpFields} (h : IsAccount nfc fs read) (hlow : 4 ≤ number)
    (hhigh : number ≤ 6) (hbody : body ∈ bodies fs number) : ∃ z, intOf body = some z := by
  interval_cases number
  · obtain ⟨a, ha⟩ := read_of_mem h.algorithm hbody
    obtain ⟨z, hz, -⟩ := bind_eq_some_iff.1 ha
    exact ⟨z, hz⟩
  · obtain ⟨a, ha⟩ := read_of_mem h.digits hbody
    obtain ⟨z, hz, -⟩ := bind_eq_some_iff.1 ha
    exact ⟨z, hz⟩
  · obtain ⟨a, ha⟩ := read_of_mem h.type hbody
    obtain ⟨z, hz, -⟩ := bind_eq_some_iff.1 ha
    exact ⟨z, hz⟩

theorem IsExport.not_misspells {bs : Bytes} (h : IsExport nfc fs payload)
    (hmessage : Message fs bs) : ¬Misspells fs := by
  rintro (⟨number, body, hlow, hhigh, hbody, hnot⟩ |
    ⟨bs', account, number, body, hbytes, haccount, hlow, hhigh, hbody, hnot⟩)
  · obtain ⟨z, hz⟩ := h.int hlow hhigh hbody
    obtain ⟨written, hwrites⟩ := message_writes hmessage hbody
    exact hnot z (spells_of_intOf hz hwrites)
  · obtain ⟨read, hread⟩ := h.account hbytes haccount
    obtain ⟨z, hz⟩ := hread.int hlow hhigh hbody
    obtain ⟨written, hwrites⟩ := message_writes haccount hbody
    exact hnot z (spells_of_intOf hz hwrites)

/-- Every export is read as what it says; all other bytes are refused with an error of the reader's
own, and among them those whose accounts have a scalar twice or whose numbers are misspelled. -/
theorem readMigrationPayload_inverts (nfc : Utf16 → Utf16) :
    (∀ payload fs bs, ValidExport payload → EncodesExport nfc payload fs → Message fs bs →
      fs.length ≤ maxFieldsPerMessage → bs.length ≤ maxMigrationPayloadBytes →
      readMigrationPayload nfc bs = .ok payload) ∧
    ∀ bs, ((∃ payload, readMigrationPayload nfc bs = .ok payload) ∨
        ∃ error, readMigrationPayload nfc bs = .error (.migration error)) ∧
      ∀ payload, readMigrationPayload nfc bs = .ok payload →
        ∃ fs, Message fs bs ∧ IsExport nfc fs payload ∧ ¬RepeatsScalar fs ∧ ¬Misspells fs := by
  refine ⟨?_, fun bs => ⟨?_, ?_⟩⟩
  · intro payload fs bs hvalid hencodes hmessage hlength hbytes
    exact readMigrationPayload_eq_ok.2
      ⟨hbytes, fs, hmessage, hlength, hencodes.isExport hvalid⟩
  · by_cases h : ∃ payload, readMigrationPayload nfc bs = .ok payload
    · exact .inl h
    · exact .inr (readMigrationPayload_error (not_exists.1 h))
  · intro payload h
    obtain ⟨-, fs, hmessage, -, hexport⟩ := readMigrationPayload_eq_ok.1 h
    exact ⟨fs, hmessage, hexport, hexport.not_repeats, hexport.not_misspells hmessage⟩

/-- An account with a secret of one byte. -/
def sampleEntry : MigrationEntry := ⟨.totp, [0x41], [], [], .sha1, 6, none⟩

/-- A field of number 9, spelled in a byte more than it needs, then a batch id of -1 and an account. -/
def sampleBytes : Bytes :=
  [0x48, 0x85, 0x00] ++ ([0x28, 0xFF, 0xFF, 0xFF, 0xFF, 0xFF, 0xFF, 0xFF, 0xFF, 0xFF, 0x01] ++
    ([0x0A, 0x03, 0x0A, 0x01, 0x41] ++ []))

def sampleFields : List Field :=
  [⟨9, .varint 5 2⟩, ⟨5, .varint (2 ^ 64 - 1) 10⟩, ⟨1, .bytes [0x0A, 0x01, 0x41]⟩]

theorem readMigrationPayload_inverts_sample :
    readMigrationPayload id sampleBytes = .ok ⟨[sampleEntry], 0, 1, 0, -1⟩ := by
  have hnine : Field.Writes ⟨9, .varint 5 2⟩ ([0x48] ++ [0x85, 0x00]) :=
    .mk (by decide) ⟨by decide, by decide, by decide⟩
      (@Body.Writes.varint 5 [0x85, 0x00] ⟨by decide, by decide, by decide⟩)
  have hid : Field.Writes ⟨5, .varint (2 ^ 64 - 1) 10⟩
      ([0x28] ++ [0xFF, 0xFF, 0xFF, 0xFF, 0xFF, 0xFF, 0xFF, 0xFF, 0xFF, 0x01]) :=
    .mk (by decide) ⟨by decide, by decide, by decide⟩ (@Body.Writes.varint (2 ^ 64 - 1)
      [0xFF, 0xFF, 0xFF, 0xFF, 0xFF, 0xFF, 0xFF, 0xFF, 0xFF, 0x01]
      ⟨by decide, by decide, by decide⟩)
  have haccount : Field.Writes ⟨1, .bytes [0x0A, 0x01, 0x41]⟩
      ([0x0A] ++ ([0x03] ++ [0x0A, 0x01, 0x41])) :=
    .mk (by decide) ⟨by decide, by decide, by decide⟩
      (.bytes ⟨by decide, by decide, by decide⟩)
  have hsecret : Field.Writes ⟨1, .bytes [0x41]⟩ ([0x0A] ++ ([0x01] ++ [0x41])) :=
    .mk (by decide) ⟨by decide, by decide, by decide⟩
      (.bytes ⟨by decide, by decide, by decide⟩)
  have hlabel : IsLabel id [] := ⟨rfl, by simp [codePoints], rfl, rfl, by decide, by decide⟩
  have hentry : EncodedAccount id (.bytes [0x0A, 0x01, 0x41]) sampleEntry :=
    .mk (.cons hsecret .nil) (by decide)
      ⟨rfl, ⟨[], [], hlabel, hlabel, .inr ⟨rfl, rfl⟩, .inr ⟨rfl, rfl⟩, rfl⟩, .inr ⟨rfl, rfl⟩,
        .inr ⟨rfl, rfl⟩, .inr ⟨rfl, rfl⟩, .inr ⟨rfl, rfl⟩⟩ (by decide) (by decide)
  exact (readMigrationPayload_inverts id).1 _ sampleFields _
    ⟨by decide, by decide, by decide, by decide, by decide, by decide, by decide⟩
    ⟨.cons hentry .nil, .inr ⟨rfl, rfl⟩, .inr ⟨.inr ⟨rfl, rfl⟩, rfl⟩, .inr ⟨rfl, rfl⟩,
      .inl ⟨_, rfl, .negative (by decide) (by decide)⟩⟩
    (.cons hnine (.cons hid (.cons haccount .nil))) (by decide) (by decide)

/-- An unknown field that is a group: the export is refused, though without it it is read. -/
theorem readMigrationPayload_group :
    readMigrationPayload id [0x0A, 0x03, 0x0A, 0x01, 0x41] = .ok ⟨[sampleEntry], 0, 1, 0, 0⟩ ∧
      readMigrationPayload id [0x0A, 0x03, 0x0A, 0x01, 0x41, 0x4B, 0x4C] = .error unsupportedField :=
  ⟨rfl, rfl⟩

end HVault.Totp
