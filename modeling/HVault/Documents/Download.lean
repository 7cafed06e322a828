import HVault.Crypto.DocumentCrypto

/-!
# Reading a document

The one verified read (`streamDocumentPlaintext`): the row, the document's keys, the metadata, and
then the segments one by one, each handed to the sink as it has been opened. The server chooses the
row and every segment.

`document_stream_authentic` says what a sink is given where the cipher opens nothing but what was
sealed: the plaintext of the document, up to where the read ended. The invariant of the loop
(`Segments.run`) is that what was written is the first segments of the document.
-/

namespace HVault.Download

open Base64 (base64ToBytes base64ToBytes_btoa)
open Json Documents Backup Restore DocumentCrypto List

/-! ## The read -/

/-- A source of segments other than the server, with the key that its row is wrapped under. -/
structure VerifiedReadSource where
  vaultKey : Bytes
  readSegment : ℕ → Option Bytes

structure ReadDocumentOptions where
  row : Option DocumentResponse
  source : Option VerifiedReadSource

/-- What a read meets with: the key that is held, the answers of the server (`none` where a request
fails), the signal at each point where it is looked at, and whether the sink takes a segment. -/
structure Surroundings where
  vaultKey : Option Bytes
  document : Option Value
  segment : ℕ → Option Bytes
  abortedAtStart : Bool
  abortedBefore : ℕ → Bool
  abortedIn : ℕ → Bool
  writes : ℕ → Bool

/-- What became of a read: the segments that the sink has, whether it was told to discard them, and
the result. -/
structure Reading where
  written : List Bytes
  discarded : Bool
  result : Except Fault DocumentMeta

/-- The values that a row has beside its metadata, with how they compare. -/
def disagreements (row : DocumentResponse) (documentMeta : DocumentMeta) : List String :=
  (if row.chunkPlaintextBytes ≠ documentMeta.chunkPlaintextBytes then ["chunkPlaintextBytes"]
    else []) ++
  (if row.chunkCount ≠ documentMeta.chunkCount then ["chunkCount"] else []) ++
  (if row.plaintextBytes ≠ documentMeta.plaintextBytes then ["plaintextBytes"] else [])

/-- What a read knows before it asks for the first segment. -/
structure OpenedDocument (Key : Type) where
  documentMeta : DocumentMeta
  streamKey : Key
  noncePrefix : Bytes

section Read

variable {Key : Type} (p : Primitives Key) (formats : Formats)

def fetchDocumentRow (surroundings : Surroundings) : Except Fault DocumentResponse :=
  match surroundings.document with
  | none => .error .rowUnavailable
  | some answer => (documentResponseSchema formats answer).mapError .rowSchema

/-- The key that the row of a read is wrapped under. -/
def ReadDocumentOptions.vaultKey (options : ReadDocumentOptions) (surroundings : Surroundings) :
    Option Bytes :=
  (options.source.map VerifiedReadSource.vaultKey).or surroundings.vaultKey

def ReadDocumentOptions.rowOr (options : ReadDocumentOptions) (surroundings : Surroundings) :
    Except Fault DocumentResponse :=
  match options.row with
  | some row => .ok row
  | none => fetchDocumentRow formats surroundings

/-- The checks before the first segment. The row's id is in lower case, and a spelling of the
argument that cannot be an id equals no row's. -/
def openDocument (id : Utf16) (options : ReadDocumentOptions) (surroundings : Surroundings) :
    Except Fault (OpenedDocument Key) := do
  let documentId := id.map lowerDigit
  if options.source.isSome ∧ options.row.isNone then .error .sourceWithoutRow
  let vaultKey ← (options.vaultKey surroundings).elim (.error .locked) .ok
  let row ← options.rowOr formats surroundings
  if row.id ≠ documentId then .error .identity
  if surroundings.abortedAtStart then .error .cancelled
  let wrapKey ← deriveWrapKey p vaultKey documentId
  let dek ← unwrapDek p row wrapKey
  let streamSalt ← base64ToBytes Fault.invalidCharacter row.streamSalt
  let metaKey ← deriveMetaKey p dek streamSalt documentId
  let documentMeta ← decryptMeta p formats metaKey row
  if disagreements row documentMeta ≠ [] then .error (.framing (disagreements row documentMeta))
  let streamKey ← deriveStreamKey p dek streamSalt documentId
  let noncePrefix ← base64ToBytes Fault.invalidCharacter row.noncePrefix
  return { documentMeta, streamKey, noncePrefix }

/-- The segments of a document, from those that are left: what the sink has at the end, and what
stopped the read. -/
def readSegments (opened : OpenedDocument Key) (readSegment : ℕ → Option Bytes)
    (surroundings : Surroundings) : List ℕ → List Bytes → List Bytes × Option Fault
  | [], written => (written, none)
  | index :: rest, written =>
    if surroundings.abortedBefore index then (written, some .cancelled)
    else match readSegment index with
      | none =>
        (written, some (if surroundings.abortedIn index then .cancelled else .segmentUnavailable))
      | some sealed =>
        match decryptSegment p opened.streamKey
            ⟨opened.noncePrefix, index, index + 1 = opened.documentMeta.chunkCount⟩ sealed with
        | .error fault => (written, some fault)
        | .ok segment =>
          if surroundings.writes index then
            readSegments opened readSegment surroundings rest (written ++ [segment])
          else (written, some .sink)

def streamDocumentPlaintext (id : Utf16) (options : ReadDocumentOptions)
    (surroundings : Surroundings) : Reading :=
  match openDocument p formats id options surroundings with
  | .error fault => ⟨[], false, .error fault⟩
  | .ok opened =>
    let readSegment := (options.source.map VerifiedReadSource.readSegment).getD surroundings.segment
    match readSegments p opened readSegment surroundings
        (List.range opened.documentMeta.chunkCount) [] with
    | (written, some fault) => ⟨written, false, .error fault⟩
    | (written, none) =>
      if p.sha256 written.flatten ≠ opened.documentMeta.sha256 then
        ⟨written, true, .error .digest⟩
      else ⟨written, false, .ok opened.documentMeta⟩

end Read

/-! ## The document -/

/-- A document as it was uploaded. -/
structure StoredDocument where
  vaultKey : Bytes
  documentId : Utf16
  dek : Bytes
  streamSalt : Bytes
  noncePrefix : Bytes
  chunkPlaintextBytes : ℕ
  plaintext : Bytes
  chunk_pos : 0 < chunkPlaintextBytes

namespace StoredDocument

def chunkCount (document : StoredDocument) : ℕ :=
  documentChunkCountFor document.plaintext.length document.chunkPlaintextBytes

/-- The slice of the file that one segment seals. -/
def segment (document : StoredDocument) (index : ℕ) : Bytes :=
  (strideSpan 0 document.plaintext.length document.chunkPlaintextBytes index).slice
    document.plaintext

def framing (document : StoredDocument) (index : ℕ) : SegmentFraming :=
  ⟨document.noncePrefix, index, index + 1 = document.chunkCount⟩

/-- The slices of a file, one after the other, are the file; an empty file is one empty slice. -/
theorem segments_flatten (document : StoredDocument) :
    ((range document.chunkCount).map document.segment).flatten = document.plaintext := by
  obtain ⟨hone, hlow, hhigh⟩ := documentChunkCountFor_bounds document.chunk_pos
    (rfl : document.chunkCount = documentChunkCountFor document.plaintext.length _)
  obtain ⟨n, hn⟩ : ∃ n, document.chunkCount = n + 1 := Nat.exists_eq_add_one.2 hone
  rw [hn] at hlow hhigh
  rw [Nat.add_sub_cancel] at hlow
  have htiles : Tiles 0 document.plaintext.length ((range (n + 1)).map
      (strideSpan 0 document.plaintext.length document.chunkPlaintextBytes)) :=
    tiles_strides (by omega) (by omega)
  have hflatten := htiles.flatten document.plaintext
  rw [map_map] at hflatten
  rw [hn]
  refine hflatten.trans ?_
  unfold Span.slice
  rw [take_length, drop_zero]

section Keys

variable {Key : Type} (p : Primitives Key) (document : StoredDocument)

def wrapKey : Key :=
  deriveDocumentKey p document.vaultKey [] documentDekWrapInfoPrefix document.documentId

def metaKey (salt : Bytes) : Key :=
  deriveDocumentKey p document.dek salt documentMetaInfoPrefix document.documentId

def streamKey (salt : Bytes) : Key :=
  deriveDocumentKey p document.dek salt documentStreamInfoPrefix document.documentId

/-- The keys of a document, whatever salt a row names. -/
inductive IsKey : Key → Prop where
  | wrap : IsKey (document.wrapKey p)
  | metadata (salt : Bytes) : IsKey (document.metaKey p salt)
  | stream (salt : Bytes) : IsKey (document.streamKey p salt)

/-- What a client seals for a document: its key, its metadata as often as they are rewritten, and
each of its segments. -/
inductive Made : Sealing Key → Prop where
  | dek (nonce : Bytes) : Made ⟨document.wrapKey p, nonce, [], document.dek⟩
  | metadata (nonce : Bytes) (documentMeta : DocumentMeta)
      (hcount : documentMeta.chunkCount = document.chunkCount) :
      Made ⟨document.metaKey p document.streamSalt, nonce, [], documentMeta.encoded⟩
  | segment (index : ℕ) (hindex : index < document.chunkCount) (iv : Bytes)
      (hiv : segmentIv (document.framing index) = .ok iv) :
      Made ⟨document.streamKey p document.streamSalt, iv, [], document.segment index⟩

end Keys

end StoredDocument

/-- Keys that are derived for different texts are different. -/
def SeparatesInfo {Key : Type} (p : Primitives Key) : Prop :=
  ∀ ikm salt info ikm' salt' info', p.hkdf ikm salt info = p.hkdf ikm' salt' info' → info = info'

/-! ## What the keys of a document open -/

theorem info_inj {infoPrefix infoPrefix' documentId : Utf16} (hid : isHexString documentId)
    (hplain : infoPrefix.all Utf8.isPlain) (hplain' : infoPrefix'.all Utf8.isPlain)
    (h : Utf8.encode (infoPrefix ++ documentId) = Utf8.encode (infoPrefix' ++ documentId)) :
    infoPrefix = infoPrefix' := by
  have hhex : documentId.all Utf8.isPlain := by
    unfold isHexString at hid
    simp only [decide_eq_true_eq, all_eq_true] at hid
    rw [all_eq_true]
    intro u hu
    have hdigit := hid.2 u hu
    unfold isHexDigit at hdigit
    rw [decide_eq_true_eq] at hdigit
    exact Utf8.isPlain_of_lt (by omega)
  refine append_cancel_right (Utf8.encode_inj ?_ ?_ h)
  · rw [all_append, hplain, hhex]
    rfl
  · rw [all_append, hplain', hhex]
    rfl

section Opens

variable {Key : Type} {p : Primitives Key} {document : StoredDocument} {made : Set (Sealing Key)}

/-- The cipher and what was sealed under the keys of a document: what opens under one of them was
sealed for the document. -/
structure Kept (p : Primitives Key) (document : StoredDocument) (made : Set (Sealing Key)) :
    Prop where
  separates : SeparatesInfo p
  unforgeable : p.aead.Unforgeable {key | document.IsKey p key} made
  made : ∀ s ∈ made, document.IsKey p s.key → document.Made p s

variable {nonce sealed : Bytes}

theorem Kept.opens (h : Kept p document made) {key : Key} (hkey : document.IsKey p key)
    {plaintext : Bytes} (hopen : p.aead.decrypt key nonce [] sealed = some plaintext) :
    document.Made p ⟨key, nonce, [], plaintext⟩ :=
  h.made _ (h.unforgeable key hkey nonce [] sealed plaintext hopen).1 hkey

theorem Kept.prefix_eq (h : Kept p document made) (hid : isHexString document.documentId)
    {ikm salt ikm' salt' : Bytes} {infoPrefix infoPrefix' : Utf16}
    (hplain : infoPrefix.all Utf8.isPlain) (hplain' : infoPrefix'.all Utf8.isPlain)
    (hkey : deriveDocumentKey p ikm salt infoPrefix document.documentId =
      deriveDocumentKey p ikm' salt' infoPrefix' document.documentId) : infoPrefix = infoPrefix' :=
  info_inj hid hplain hplain' (h.separates _ _ _ _ _ _ hkey)

theorem Kept.dek (h : Kept p document made) (hid : isHexString document.documentId) {dek : Bytes}
    (hopen : p.aead.decrypt (document.wrapKey p) nonce [] sealed = some dek) :
    dek = document.dek := by
  have hmade := h.opens .wrap hopen
  generalize hs : (⟨document.wrapKey p, nonce, [], dek⟩ : Sealing Key) = s at hmade
  cases hmade with
  | dek => exact (Sealing.mk.inj hs).2.2.2
  | metadata | segment =>
    exact absurd (h.prefix_eq hid (by decide) (by decide) (Sealing.mk.inj hs).1) (by decide)

theorem Kept.chunkCount (h : Kept p document made) (hid : isHexString document.documentId)
    {formats : Formats} {salt plaintext : Bytes} {v : Value} {documentMeta : DocumentMeta}
    (hopen : p.aead.decrypt (document.metaKey p salt) nonce [] sealed = some plaintext)
    (hread : (decodeText plaintext).bind parse = some v)
    (hschema : documentMetaSchema formats v = .ok documentMeta) :
    documentMeta.chunkCount = document.chunkCount := by
  have hmade := h.opens (.metadata salt) hopen
  generalize hs : (⟨document.metaKey p salt, nonce, [], plaintext⟩ : Sealing Key) = s at hmade
  cases hmade with
  | dek =>
    exact absurd (h.prefix_eq hid (by decide) (by decide) (Sealing.mk.inj hs).1) (by decide)
  | metadata _ original hcount =>
    obtain rfl := (Sealing.mk.inj hs).2.2.2
    rw [parse_encoded] at hread
    cases hread
    exact (documentMetaSchema_written hschema).chunkCount.trans hcount
  | segment =>
    exact absurd (h.prefix_eq hid (by decide) (by decide) (Sealing.mk.inj hs).1) (by decide)

theorem Kept.segment (h : Kept p document made) (hid : isHexString document.documentId)
    {salt noncePrefix ciphertext segment : Bytes} {index : ℕ}
    (hopen : decryptSegment p (document.streamKey p salt)
      ⟨noncePrefix, index, index + 1 = document.chunkCount⟩ ciphertext = .ok segment) :
    segment = document.segment index := by
  obtain ⟨iv, hiv, hopen⟩ := decryptSegment_ok hopen
  have hmade := h.opens (.stream salt) hopen
  generalize hs : (⟨document.streamKey p salt, iv, [], segment⟩ : Sealing Key) = s at hmade
  cases hmade with
  | dek | metadata =>
    exact absurd (h.prefix_eq hid (by decide) (by decide) (Sealing.mk.inj hs).1) (by decide)
  | segment index' hindex iv' hiv' =>
    obtain ⟨-, rfl, -, rfl⟩ := Sealing.mk.inj hs
    have hplace : (index : ℚ) = index' :=
      congrArg SegmentFraming.index (segmentIv_injective hiv hiv')
    have hindex : index = index' := by exact_mod_cast hplace
    rw [hindex]

/-- What has been opened of a document before its first segment. -/
structure Opened (p : Primitives Key) (document : StoredDocument) (opened : OpenedDocument Key) :
    Prop where
  hex : isHexString document.documentId
  chunkCount : opened.documentMeta.chunkCount = document.chunkCount
  streamKey : ∃ salt, opened.streamKey = document.streamKey p salt

theorem openDocument_spec (h : Kept p document made) {formats : Formats} {id : Utf16}
    {options : ReadDocumentOptions} {surroundings : Surroundings} {opened : OpenedDocument Key}
    (hid : id.map lowerDigit = document.documentId)
    (hvault : ∀ vaultKey ∈ options.vaultKey surroundings, vaultKey = document.vaultKey)
    (hopen : openDocument p formats id options surroundings = .ok opened) :
    Opened p document opened := by
  unfold openDocument at hopen
  rw [hid] at hopen
  obtain ⟨-, hopen⟩ := guard_ok hopen
  obtain ⟨vaultKey, hkey, hopen⟩ := bind_ok hopen
  obtain ⟨row, -, hopen⟩ := bind_ok hopen
  obtain ⟨-, hopen⟩ := guard_ok hopen
  obtain ⟨-, hopen⟩ := guard_ok hopen
  obtain ⟨wrapKey, hwrap, hopen⟩ := bind_ok hopen
  obtain ⟨dek, hdek, hopen⟩ := bind_ok hopen
  obtain ⟨streamSalt, -, hopen⟩ := bind_ok hopen
  obtain ⟨metaKey, hmetaKey, hopen⟩ := bind_ok hopen
  obtain ⟨documentMeta, hmeta, hopen⟩ := bind_ok hopen
  obtain ⟨-, hopen⟩ := guard_ok hopen
  obtain ⟨streamKey, hstream, hopen⟩ := bind_ok hopen
  obtain ⟨noncePrefix, -, hopen⟩ := bind_ok hopen
  cases hopen
  have hvaultKey : vaultKey = document.vaultKey := by
    refine hvault vaultKey ?_
    cases hheld : options.vaultKey surroundings with
    | none => rw [hheld] at hkey; cases hkey
    | some held =>
      rw [hheld] at hkey
      exact congrArg some (Except.ok.inj hkey)
  have hlower : document.documentId.map lowerDigit = document.documentId := by
    rw [← hid, map_map]
    exact map_congr_left fun u _ => lowerDigit_lowerDigit u
  obtain ⟨normalized, hnormalized, hwrap⟩ := bind_ok hwrap
  obtain ⟨hhex, rfl⟩ := normalizeDocumentId_ok hnormalized
  cases hwrap
  obtain ⟨nonce, sealed, hdek⟩ := unwrapDek_ok hdek
  rw [hvaultKey, hlower] at hdek
  obtain rfl := h.dek hhex hdek
  obtain ⟨-, -, hmetaKey⟩ := bind_ok hmetaKey
  rw [hnormalized] at hmetaKey
  cases hmetaKey
  obtain ⟨-, -, hstream⟩ := bind_ok hstream
  rw [hnormalized] at hstream
  cases hstream
  obtain ⟨nonce, sealed, plaintext, v, hopens, hread, hschema⟩ := decryptMeta_ok hmeta
  rw [hlower] at hopens ⊢
  exact ⟨hhex, h.chunkCount hhex hopens hread hschema, streamSalt, rfl⟩

/-! ## The loop -/

/-- What the sink has been given is the first of the segments, and all of them where nothing stopped
the read. -/
theorem readSegments_run (h : Kept p document made) {opened : OpenedDocument Key}
    (hopened : Opened p document opened) (readSegment : ℕ → Option Bytes)
    (surroundings : Surroundings) (indexes : List ℕ) (written : List Bytes) :
    ∃ n ≤ indexes.length,
      (readSegments p opened readSegment surroundings indexes written).1 =
        written ++ (indexes.take n).map document.segment ∧
      ((readSegments p opened readSegment surroundings indexes written).2 = none →
        n = indexes.length) := by
  induction indexes generalizing written with
  | nil =>
    refine ⟨0, le_rfl, ?_, fun _ => rfl⟩
    show written = written ++ []
    rw [append_nil]
  | cons index rest ih =>
    have hstop : ∀ fault : Fault, ∃ n ≤ (index :: rest).length,
        (written, some fault).1 = written ++ ((index :: rest).take n).map document.segment ∧
        ((written, some fault).2 = none → n = (index :: rest).length) :=
      fun fault => ⟨0, Nat.zero_le _, (append_nil _).symm, nofun⟩
    rw [readSegments]
    by_cases habort : surroundings.abortedBefore index
    · rw [if_pos habort]
      exact hstop _
    · rw [if_neg habort]
      cases hread : readSegment index with
      | none => exact hstop _
      | some sealed =>
        simp only
        cases hsegment : decryptSegment p opened.streamKey
            ⟨opened.noncePrefix, index, index + 1 = opened.documentMeta.chunkCount⟩ sealed with
        | error fault => exact hstop fault
        | ok segment =>
          simp only
          by_cases hwrites : surroundings.writes index
          · -- the segment that was opened is the next of the document
            rw [if_pos hwrites]
            obtain ⟨salt, hkey⟩ := hopened.streamKey
            rw [hkey, hopened.chunkCount] at hsegment
            obtain rfl := h.segment hopened.hex hsegment
            obtain ⟨n, hn, hwritten, hall⟩ := ih (written ++ [document.segment index])
            refine ⟨n + 1, Nat.succ_le_succ hn, ?_, fun hnone => ?_⟩
            · rw [hwritten, append_assoc, take_succ_cons, map_cons]
              rfl
            · rw [hall hnone]
              rfl
          · rw [if_neg hwrites]
            exact hstop _

/-- A read gives its sink the first segments of the document, and all where it succeeds. -/
theorem streamDocumentPlaintext_run (h : Kept p document made) (formats : Formats) {id : Utf16}
    {options : ReadDocumentOptions} {surroundings : Surroundings}
    (hid : id.map lowerDigit = document.documentId)
    (hvault : ∀ vaultKey ∈ options.vaultKey surroundings, vaultKey = document.vaultKey) :
    ∃ n ≤ document.chunkCount,
      (streamDocumentPlaintext p formats id options surroundings).written =
        ((range document.chunkCount).take n).map document.segment ∧
      ∀ documentMeta,
        (streamDocumentPlaintext p formats id options surroundings).result = .ok documentMeta →
        n = document.chunkCount := by
  unfold streamDocumentPlaintext
  cases hopen : openDocument p formats id options surroundings with
  | error fault => exact ⟨0, Nat.zero_le _, rfl, nofun⟩
  | ok opened =>
    have hopened := openDocument_spec h hid hvault hopen
    obtain ⟨n, hn, hwritten, hall⟩ := readSegments_run h hopened
      ((options.source.map VerifiedReadSource.readSegment).getD surroundings.segment)
      surroundings (range opened.documentMeta.chunkCount) []
    rw [hopened.chunkCount] at hn hwritten hall
    rw [length_range] at hn hall
    simp only
    rw [hopened.chunkCount]
    generalize readSegments p opened _ surroundings (range document.chunkCount) [] = read at *
    obtain ⟨written, _ | fault⟩ := read
    · refine ⟨n, hn, ?_, fun _ _ => hall rfl⟩
      simp only
      split
      · exact hwritten
      · exact hwritten
    · exact ⟨n, hn, hwritten, nofun⟩

end Opens

/-! ### Reads that complete -/

section Completes

variable {Key : Type} {p : Primitives Key} {opened : OpenedDocument Key}
  {surroundings : Surroundings}

/-- Where every segment opens and the sink takes it, the sink has them all. -/
theorem readSegments_all (readSegment : ℕ → Option Bytes) (segment : ℕ → Bytes)
    {indexes : List ℕ} (h : ∀ index ∈ indexes, ¬surroundings.abortedBefore index ∧
      surroundings.writes index ∧ ∃ sealed, readSegment index = some sealed ∧
        decryptSegment p opened.streamKey
          ⟨opened.noncePrefix, index, index + 1 = opened.documentMeta.chunkCount⟩ sealed =
            .ok (segment index)) (written : List Bytes) :
    readSegments p opened readSegment surroundings indexes written =
      (written ++ indexes.map segment, none) := by
  induction indexes generalizing written with
  | nil => rw [readSegments, map_nil, append_nil]
  | cons index rest ih =>
    obtain ⟨habort, hwrites, sealed, hread, hsegment⟩ := h index mem_cons_self
    rw [readSegments, if_neg habort, hread]
    simp only [hsegment]
    rw [if_pos hwrites, ih fun other hother => h other (mem_cons_of_mem _ hother),
      append_assoc, map_cons, singleton_append]

/-- A read of a document that opens completes with all its segments, where these are what the
metadata says. -/
theorem streamDocumentPlaintext_all {formats : Formats} {id : Utf16} {row : DocumentResponse}
    (hopened : openDocument p formats id ⟨some row, none⟩ surroundings = .ok opened)
    (segment : ℕ → Bytes)
    (h : ∀ index < opened.documentMeta.chunkCount, ¬surroundings.abortedBefore index ∧
      surroundings.writes index ∧ ∃ sealed, surroundings.segment index = some sealed ∧
        decryptSegment p opened.streamKey
          ⟨opened.noncePrefix, index, index + 1 = opened.documentMeta.chunkCount⟩ sealed =
            .ok (segment index))
    (hsha256 : p.sha256 ((range opened.documentMeta.chunkCount).map segment).flatten =
      opened.documentMeta.sha256) :
    streamDocumentPlaintext p formats id ⟨some row, none⟩ surroundings =
      ⟨(range opened.documentMeta.chunkCount).map segment, false,
        .ok opened.documentMeta⟩ := by
  have hsegments := readSegments_all surroundings.segment segment
    (fun index hindex => h index (mem_range.1 hindex)) []
  rw [nil_append] at hsegments
  unfold streamDocumentPlaintext
  simp only [hopened, Option.map_none, Option.getD_none, hsegments]
  exact if_neg (not_not.2 hsha256)

end Completes

/-! ## The law -/

/-- The nonce of a segment tells its place, over all the indexes that are admitted. Whatever row and
segments it is answered with, a read hands out the beginning of the document only, and the whole of
it where it completes. -/
theorem document_stream_authentic {Key : Type} {p : Primitives Key} {document : StoredDocument}
    {made : Set (Sealing Key)} (hkept : Kept p document made) :
    (∀ framing framing' iv, segmentIv framing = .ok iv → segmentIv framing' = .ok iv →
      framing = framing') ∧
    ∀ formats id options surroundings, id.map lowerDigit = document.documentId →
      (∀ vaultKey ∈ options.vaultKey surroundings, vaultKey = document.vaultKey) →
      (streamDocumentPlaintext p formats id options surroundings).written.flatten <+:
        document.plaintext ∧
      ∀ documentMeta,
        (streamDocumentPlaintext p formats id options surroundings).result = .ok documentMeta →
        (streamDocumentPlaintext p formats id options surroundings).written.flatten =
          document.plaintext := by
  refine ⟨fun _ _ _ h h' => segmentIv_injective h h', ?_⟩
  intro formats id options surroundings hid hvault
  obtain ⟨n, -, hwritten, hall⟩ := streamDocumentPlaintext_run hkept formats hid hvault
  rw [hwritten]
  refine ⟨?_, fun documentMeta hresult => ?_⟩
  · rw [← document.segments_flatten]
    conv_rhs => rw [← take_append_drop n (range document.chunkCount), map_append,
      flatten_append]
    exact prefix_append _ _
  · have hrange : (range document.chunkCount).take n = range document.chunkCount :=
      take_of_length_le (by rw [length_range, hall documentMeta hresult])
    rw [hrange]
    exact document.segments_flatten

/-! ## A document of two segments -/

def sampleDocument : StoredDocument where
  vaultKey := List.replicate 32 1
  documentId := List.replicate 24 0x61
  dek := List.replicate 32 2
  streamSalt := List.replicate 32 3
  noncePrefix := List.replicate 7 4
  chunkPlaintextBytes := 2
  plaintext := [0x61, 0x62, 0x63]
  chunk_pos := by decide

def sampleSha256 : Utf16 :=
  units "ba7816bf8f01cfea414140de5dae2223b00361a396177a9cb410ff61f20015ad"

def sampleMeta : DocumentMeta where
  name := units "abc.txt"
  originalName := none
  restoredFrom := none
  mime := units "text/plain"
  ext := units "txt"
  plaintextBytes := 3
  sha256 := sampleSha256
  chunkPlaintextBytes := 2
  chunkCount := 2
  tags := []
  note := none
  transform := none
  capturedAt := units "2026-01-01T00:00:00.000Z"

/-- A key is what it was derived from. -/
abbrev SampleKey := Bytes × Bytes × Bytes

def sampleKey (ikm salt : Bytes) (infoPrefix : Utf16) : SampleKey :=
  (ikm, salt, Utf8.encode (infoPrefix ++ sampleDocument.documentId))

def sampleMade : List (Sealing SampleKey) :=
  [⟨sampleKey sampleDocument.vaultKey [] documentDekWrapInfoPrefix, List.replicate 12 5, [],
      sampleDocument.dek⟩,
    ⟨sampleKey sampleDocument.dek sampleDocument.streamSalt documentMetaInfoPrefix,
      List.replicate 12 6, [], sampleMeta.encoded⟩,
    ⟨sampleKey sampleDocument.dek sampleDocument.streamSalt documentStreamInfoPrefix,
      [4, 4, 4, 4, 4, 4, 4, 0, 0, 0, 0, 0], [], [0x61, 0x62]⟩,
    ⟨sampleKey sampleDocument.dek sampleDocument.streamSalt documentStreamInfoPrefix,
      [4, 4, 4, 4, 4, 4, 4, 0, 0, 0, 1, 1], [], [0x63]⟩]

def samplePrimitives : Primitives SampleKey where
  aead := Aead.table sampleMade
  hkdf ikm salt info := (ikm, salt, info)
  sha256 bs := if bs = sampleDocument.plaintext then sampleSha256 else []

/-- The three fields of a sealed value. -/
def sampleSealed (s : Sealing SampleKey) : Utf16 × Utf16 × Utf16 :=
  let sealed := samplePrimitives.aead.encrypt s
  (Base64.btoa (sealed.take s.plaintext.length), Base64.btoa s.nonce,
    Base64.btoa (sealed.drop s.plaintext.length))

def sampleRow : DocumentResponse where
  id := sampleDocument.documentId
  folderId := none
  favorite := false
  encryptedDek := (sampleSealed (sampleMade.getD 0 ⟨default, [], [], []⟩)).1
  dekIv := (sampleSealed (sampleMade.getD 0 ⟨default, [], [], []⟩)).2.1
  dekTag := (sampleSealed (sampleMade.getD 0 ⟨default, [], [], []⟩)).2.2
  streamSalt := Base64.btoa sampleDocument.streamSalt
  noncePrefix := Base64.btoa sampleDocument.noncePrefix
  encryptedMeta := (sampleSealed (sampleMade.getD 1 ⟨default, [], [], []⟩)).1
  metaIv := (sampleSealed (sampleMade.getD 1 ⟨default, [], [], []⟩)).2.1
  metaTag := (sampleSealed (sampleMade.getD 1 ⟨default, [], [], []⟩)).2.2
  chunkPlaintextBytes := 2
  chunkCount := 2
  ciphertextBytes := 35
  plaintextBytes := 3
  purgePending := none
  deletedAt := none
  createdAt := units "2026-01-01T00:00:00.000Z"
  updatedAt := units "2026-01-01T00:00:00.000Z"

/-- A server that answers with the segments of the document. -/
def sampleSurroundings : Surroundings where
  vaultKey := some sampleDocument.vaultKey
  document := none
  segment index := (sampleMade[index + 2]?).map samplePrimitives.aead.encrypt
  abortedAtStart := false
  abortedBefore _ := false
  abortedIn _ := false
  writes _ := true

theorem sample_kept : Kept samplePrimitives sampleDocument {s | s ∈ sampleMade} where
  separates := by
    intro ikm salt info ikm' salt' info' h
    exact (Prod.mk.inj (Prod.mk.inj h).2).2
  unforgeable := Aead.table_unforgeable sampleMade _
  made := by
    intro s hs _
    have hs : s ∈ sampleMade := hs
    simp only [sampleMade, mem_cons, not_mem_nil, or_false] at hs
    rcases hs with rfl | rfl | rfl | rfl
    · exact .dek _
    · exact .metadata _ sampleMeta rfl
    · exact .segment 0 (by decide) _ (by decide)
    · exact .segment 1 (by decide) _ (by decide)

variable {surroundings : Surroundings}

/-- A row that is handed to a read is opened where each of its checks is met. -/
theorem openDocument_row {Key : Type} {p : Primitives Key} {formats : Formats} {id : Utf16}
    {row : DocumentResponse} {vaultKey dek streamSalt noncePrefix : Bytes}
    {wrapKey metaKey streamKey : Key} {documentMeta : DocumentMeta}
    (hvaultKey : surroundings.vaultKey = some vaultKey) (hid : row.id = id.map lowerDigit)
    (habort : surroundings.abortedAtStart = false)
    (hwrap : deriveWrapKey p vaultKey row.id = .ok wrapKey)
    (hdek : unwrapDek p row wrapKey = .ok dek)
    (hsalt : base64ToBytes Fault.invalidCharacter row.streamSalt = .ok streamSalt)
    (hmetaKey : deriveMetaKey p dek streamSalt row.id = .ok metaKey)
    (hmeta : decryptMeta p formats metaKey row = .ok documentMeta)
    (hagree : disagreements row documentMeta = [])
    (hstream : deriveStreamKey p dek streamSalt row.id = .ok streamKey)
    (hnonce : base64ToBytes Fault.invalidCharacter row.noncePrefix = .ok noncePrefix) :
    openDocument p formats id ⟨some row, none⟩ surroundings =
      .ok ⟨documentMeta, streamKey, noncePrefix⟩ := by
  unfold openDocument
  simp only [← hid, ReadDocumentOptions.vaultKey, ReadDocumentOptions.rowOr, hvaultKey, habort,
    Option.isSome_none, Option.map_none, Option.none_or, Option.elim_some,
    Bool.false_eq_true, false_and, if_false, ne_eq, not_true_eq_false, bind, Except.bind, hwrap, hdek,
    hsalt, hmetaKey, hmeta, hagree, hstream, hnonce, pure, Except.pure]

/-- The segments are read by the count of the metadata alone. -/
theorem readSegments_congr {Key : Type} {p : Primitives Key}
    {documentMeta documentMeta' : DocumentMeta}
    (hcount : documentMeta.chunkCount = documentMeta'.chunkCount) {streamKey : Key}
    {noncePrefix : Bytes} {readSegment : ℕ → Option Bytes} (indices : List ℕ)
    (written : List Bytes) :
    readSegments p ⟨documentMeta, streamKey, noncePrefix⟩ readSegment surroundings indices written =
      readSegments p ⟨documentMeta', streamKey, noncePrefix⟩ readSegment surroundings indices
        written := by
  induction indices generalizing written with
  | nil => rfl
  | cons index rest ih => simp only [readSegments, hcount, ih]

theorem streamDocumentPlaintext_eq_ok {Key : Type} {p : Primitives Key} {formats : Formats}
    {id : Utf16} {row : DocumentResponse} {opened : OpenedDocument Key} {written : List Bytes}
    (hopened : openDocument p formats id ⟨some row, none⟩ surroundings = .ok opened)
    (hsegments : readSegments p opened surroundings.segment surroundings
      (range opened.documentMeta.chunkCount) [] = (written, none))
    (hdigest : p.sha256 written.flatten = opened.documentMeta.sha256) :
    (streamDocumentPlaintext p formats id ⟨some row, none⟩ surroundings).result =
      .ok opened.documentMeta := by
  unfold streamDocumentPlaintext
  simp only [hopened, Option.map_none, Option.getD_none, hsegments, hdigest, ne_eq,
    not_true_eq_false, if_false]

theorem openFromFields_sampleSealed {i : ℕ} {key : SampleKey} {nonce plaintext : Bytes}
    (h : sampleMade[i]? = some ⟨key, nonce, [], plaintext⟩) :
    openFromFields samplePrimitives key (sampleSealed (sampleMade.getD i ⟨default, [], [], []⟩)).1
      (sampleSealed (sampleMade.getD i ⟨default, [], [], []⟩)).2.1
      (sampleSealed (sampleMade.getD i ⟨default, [], [], []⟩)).2.2 = .ok plaintext := by
  have hopens := Aead.table_decrypt_encrypt (mem_of_getElem? h)
  rw [getD_eq_getElem?_getD, h, Option.getD_some]
  unfold openFromFields sampleSealed
  rw [base64ToBytes_btoa, base64ToBytes_btoa, base64ToBytes_btoa]
  show decrypt samplePrimitives key nonce (take _ _ ++ drop _ _) = _
  rw [take_append_drop]
  show Option.elim ((Aead.table sampleMade).decrypt key nonce []
    ((Aead.table sampleMade).encrypt ⟨key, nonce, [], plaintext⟩)) _ _ = _
  rw [hopens]
  rfl

theorem sample_dek : unwrapDek samplePrimitives sampleRow
    (sampleKey sampleDocument.vaultKey [] documentDekWrapInfoPrefix) = .ok sampleDocument.dek := by
  have hopen : openFromFields samplePrimitives
      (sampleKey sampleDocument.vaultKey [] documentDekWrapInfoPrefix) sampleRow.encryptedDek
      sampleRow.dekIv sampleRow.dekTag = .ok sampleDocument.dek :=
    openFromFields_sampleSealed rfl
  unfold unwrapDek
  rw [hopen]
  rfl

/-- The record is read by its schema: the cipher, the text and the JSON give back what was put into
them. -/
theorem sample_decryptMeta : ∃ documentMeta,
    decryptMeta samplePrimitives ⟨fun _ => true, fun _ => true⟩
      (sampleKey sampleDocument.dek sampleDocument.streamSalt documentMetaInfoPrefix) sampleRow =
        .ok documentMeta ∧ SameFraming documentMeta sampleMeta := by
  have hopen : openFromFields samplePrimitives
      (sampleKey sampleDocument.dek sampleDocument.streamSalt documentMetaInfoPrefix)
      sampleRow.encryptedMeta sampleRow.metaIv sampleRow.metaTag = .ok sampleMeta.encoded :=
    openFromFields_sampleSealed rfl
  have hschema :
      (documentMetaSchema ⟨fun _ => true, fun _ => true⟩ sampleMeta.json.written).isOk := by
    decide +kernel
  cases hread : documentMetaSchema ⟨fun _ => true, fun _ => true⟩ sampleMeta.json.written with
  | error path =>
    rw [hread] at hschema
    cases hschema
  | ok documentMeta =>
    exact ⟨documentMeta, decryptMeta_eq_ok hopen (parse_encoded _) hread,
      documentMetaSchema_written hread⟩

theorem sample_opened : ∃ documentMeta,
    openDocument samplePrimitives ⟨fun _ => true, fun _ => true⟩ sampleDocument.documentId
      ⟨some sampleRow, none⟩ sampleSurroundings = .ok ⟨documentMeta,
        sampleKey sampleDocument.dek sampleDocument.streamSalt documentStreamInfoPrefix,
        sampleDocument.noncePrefix⟩ ∧ SameFraming documentMeta sampleMeta := by
  obtain ⟨documentMeta, hmeta, hframing⟩ := sample_decryptMeta
  have hagree : disagreements sampleRow documentMeta = [] := by
    unfold disagreements
    rw [hframing.plaintextBytes, hframing.chunkPlaintextBytes, hframing.chunkCount]
    rfl
  have hid : sampleDocument.documentId.map lowerDigit = sampleDocument.documentId := by decide
  exact ⟨documentMeta, openDocument_row rfl hid.symm rfl rfl sample_dek (base64ToBytes_btoa _ _) rfl
    hmeta hagree rfl (base64ToBytes_btoa _ _), hframing⟩

theorem document_stream_authentic_sample : ∃ documentMeta,
    (streamDocumentPlaintext samplePrimitives ⟨fun _ => true, fun _ => true⟩
      sampleDocument.documentId ⟨some sampleRow, none⟩ sampleSurroundings).result =
        .ok documentMeta ∧
    (streamDocumentPlaintext samplePrimitives ⟨fun _ => true, fun _ => true⟩
      sampleDocument.documentId ⟨some sampleRow, none⟩ sampleSurroundings).written.flatten =
        sampleDocument.plaintext := by
  have hread : (streamDocumentPlaintext samplePrimitives ⟨fun _ => true, fun _ => true⟩
      sampleDocument.documentId ⟨some sampleRow, none⟩ sampleSurroundings).result.isOk := by
    obtain ⟨documentMeta, hopened, hframing⟩ := sample_opened
    have hsegments : readSegments samplePrimitives ⟨documentMeta,
        sampleKey sampleDocument.dek sampleDocument.streamSalt documentStreamInfoPrefix,
        sampleDocument.noncePrefix⟩ sampleSurroundings.segment sampleSurroundings
        (range documentMeta.chunkCount) [] = ([[0x61, 0x62], [0x63]], none) := by
      rw [readSegments_congr hframing.chunkCount, hframing.chunkCount]
      decide
    rw [streamDocumentPlaintext_eq_ok hopened hsegments hframing.sha256.symm]
    rfl
  cases hresult : (streamDocumentPlaintext samplePrimitives ⟨fun _ => true, fun _ => true⟩
      sampleDocument.documentId ⟨some sampleRow, none⟩ sampleSurroundings).result with
  | error fault => rw [hresult] at hread; cases hread
  | ok documentMeta =>
    have hall := (document_stream_authentic sample_kept).2 ⟨fun _ => true, fun _ => true⟩
      sampleDocument.documentId ⟨some sampleRow, none⟩ sampleSurroundings (by decide)
      (fun vaultKey h => (Option.some.inj h).symm)
    exact ⟨documentMeta, rfl, hall.2 documentMeta hresult⟩

end HVault.Download
