import HVault.Backup.Reread

/-!
# A full backup that is written and opened

The writer's invariant (`Holds`) is that its offset is the length of what its sink has stored, which
begins with the header, and that every document it has added lies there at the offset of its entry.
The reader finds the parts of a finished file where the writer put them: the manifest
(`readManifest_file`) and the segments of every document (`readAll_stored`); what is left to refuse
is what the manifest says (`openFullBackupFile_file`).
-/

namespace HVault.Backup

open Json Reader Documents List Nat FullBackupWriter

/-! ## Bytes -/

theorem bigEndian_append (bytes : Bytes) (byte : UInt8) :
    bigEndian (bytes ++ [byte]) = 256 * bigEndian bytes + byte.toNat := by
  unfold bigEndian
  rw [foldl_append]
  rfl

theorem bigEndian_bytes {width n : ℕ} (h : n < 256 ^ width) :
    bigEndian (bigEndianBytes width n) = n := by
  induction width generalizing n with
  | zero =>
    rw [pow_zero] at h
    show 0 = n
    omega
  | succ width ih =>
    rw [bigEndianBytes, bigEndian_append, ih (by rw [pow_succ] at h; omega)]
    show 256 * (n / 256) + n % 256 = n
    omega

theorem length_bigEndianBytes (width n : ℕ) : (bigEndianBytes width n).length = width := by
  induction width generalizing n with
  | zero => rfl
  | succ width ih =>
    rw [bigEndianBytes, length_append, ih]
    rfl

theorem length_fullBackupFooter (n : ℕ) :
    (fullBackupFooter n).length = fullBackupFooterBytes := by
  unfold fullBackupFooter
  rw [length_append, length_bigEndianBytes]
  rfl

theorem length_le_encodeText (cs : List Char) : cs.length ≤ (encodeText cs).length := by
  induction cs with
  | nil => exact zero_le _
  | cons c cs ih =>
    have hpos := c.utf8Size_pos
    unfold encodeText at ih ⊢
    rw [flatMap_cons, length_append, String.length_utf8EncodeChar, length_cons]
    omega

theorem two_le_encodeText (properties : List (Utf16 × Value)) :
    2 ≤ (encodeText (stringify (.object properties))).length := by
  have hbraces : 2 ≤ (stringify (.object properties)).length := by
    unfold stringify
    rw [Value.text, length_cons, length_append]
    exact succ_le_succ (le_add_left _ _)
  exact hbraces.trans (length_le_encodeText _)

/-- Text is decoded as it was encoded, unless a byte order mark comes first. -/
theorem decodeText_encodeText {c : Char} {cs : List Char} (hc : c ≠ '\uFEFF') :
    decodeText (encodeText (c :: cs)) = some (c :: cs) := by
  have hdecode : (encodeText (c :: cs)).toByteArray.utf8Decode? = some (c :: cs).toArray :=
    utf8Decode?_utf8Encode
  unfold decodeText
  rw [hdecode]
  exact congrArg some (if_neg hc)

/-! ## The writer -/

/-- Segments of the right framing for a row: so many, and all but the last full. -/
structure RightFraming (row : DocumentResponse) (segments : List Bytes) : Prop where
  count : segments.length = row.chunkCount
  full : ∀ i (hi : i < segments.length), i + 1 < row.chunkCount →
    segments[i].length = row.chunkPlaintextBytes + documentTagBytes

/-- A document as it was added lies in what a sink has stored, where its entry says. -/
structure Stored (target : Bytes) (entry : FullBackupEntry)
    (document : DocumentResponse × List Bytes) : Prop where
  row : entry.row = document.1
  length : entry.length = (document.2.map List.length).sum
  place : ∃ before after, target = before ++ (document.2.flatten ++ after) ∧
    before.length = entry.offset

variable {entry : FullBackupEntry}

theorem Stored.append {target : Bytes} {document : DocumentResponse × List Bytes}
    (h : Stored target entry document) (bytes : Bytes) :
    Stored (target ++ bytes) entry document := by
  obtain ⟨before, after, htarget, hoffset⟩ := h.place
  refine { h with place := ⟨before, after ++ bytes, ?_, hoffset⟩ }
  rw [htarget, append_assoc, append_assoc]

/-- What a writer holds after these documents have been added. -/
structure Holds (documents : List (DocumentResponse × List Bytes)) (w : FullBackupWriter) : Prop where
  offset : w.offset = w.target.length
  header : fullBackupHeader <+: w.target
  stored : List.Forall₂ (Stored w.target) w.documents documents

theorem holds_begin : Holds [] new.begin where
  offset := rfl
  header := prefix_refl _
  stored := .nil

variable {documents : List (DocumentResponse × List Bytes)} {w w' : FullBackupWriter}

theorem Holds.addDocument (h : Holds documents w) {row : DocumentResponse} {segments : List Bytes}
    (hadd : w.addDocument row segments = .ok w') :
    Holds (documents ++ [(row, segments)]) w' := by
  unfold FullBackupWriter.addDocument at hadd
  split at hadd
  · cases hadd
  · dsimp only at hadd
    split_ifs at hadd
    cases hadd
    refine ⟨?_, ?_, ?_⟩
    · show w.offset + _ = (w.target ++ segments.flatten).length
      rw [length_append, length_flatten, h.offset]
    · exact h.header.trans (prefix_append _ _)
    · show List.Forall₂ (Stored (w.target ++ segments.flatten)) (w.documents ++ [_]) _
      refine rel_append (h.stored.imp fun _ _ hs => hs.append _) (.cons ⟨rfl, rfl, ?_⟩ .nil)
      exact ⟨w.target, [], by rw [append_nil], h.offset.symm⟩

theorem Holds.addDocuments {added : List (DocumentResponse × List Bytes)} (h : Holds added w)
    (hadd : w.addDocuments documents = .ok w') :
    Holds (added ++ documents) w' := by
  induction documents generalizing added w with
  | nil =>
    cases hadd
    rw [append_nil]
    exact h
  | cons document documents ih =>
    unfold addDocuments at hadd
    rw [foldlM_cons] at hadd
    obtain ⟨w₁, hfirst, hrest⟩ := bind_ok hadd
    have hholds := ih (h.addDocument hfirst) hrest
    rwa [append_assoc] at hholds

/-- What a finished file is made of. -/
theorem finish_spec {sign : List Char → Utf16} {fields : FullBackupWriter.Fields}
    {summary : WrittenFullBackup} (h : w.finish sign fields = .ok (w', summary)) :
    (w.encoded (sign (w.canonical fields)) fields).length ≤ maxFullBackupManifestBytes ∧
      w'.target = w.target ++ (w.encoded (sign (w.canonical fields)) fields ++
        fullBackupFooter (w.encoded (sign (w.canonical fields)) fields).length) := by
  unfold finish at h
  dsimp only at h
  split_ifs at h with hboth hlarge
  obtain ⟨rfl, -⟩ := Prod.mk.inj (Except.ok.inj h)
  exact ⟨not_lt.1 hlarge, append_assoc ..⟩

/-! ## Reading it -/

section File

variable {before encoded : Bytes}

theorem footer_file :
    bytesOf (before ++ (encoded ++ fullBackupFooter encoded.length))
      ((before ++ (encoded ++ fullBackupFooter encoded.length)).length - fullBackupFooterBytes)
      (before ++ (encoded ++ fullBackupFooter encoded.length)).length =
        fullBackupFooter encoded.length := by
  have hslice := Span.slice_append (before ++ encoded) (fullBackupFooter encoded.length) []
  rw [append_nil, append_assoc] at hslice
  simp only [length_append, length_fullBackupFooter] at hslice ⊢
  rw [← add_assoc, Nat.add_sub_cancel]
  exact hslice

theorem declaredManifestBytes_file (hlarge : encoded.length ≤ maxFullBackupManifestBytes) :
    declaredManifestBytes (before ++ (encoded ++ fullBackupFooter encoded.length)) =
      encoded.length := by
  unfold declaredManifestBytes
  rw [footer_file]
  exact bigEndian_bytes (lt_of_le_of_lt hlarge (by decide : maxFullBackupManifestBytes < 256 ^ 8))

theorem manifestStart_file (hlarge : encoded.length ≤ maxFullBackupManifestBytes) :
    manifestStart (before ++ (encoded ++ fullBackupFooter encoded.length)) = before.length := by
  unfold manifestStart
  rw [declaredManifestBytes_file hlarge]
  simp only [length_append, length_fullBackupFooter]
  omega

theorem readManifest_file {v : Value} {properties : List (Utf16 × Value)}
    (hobject : v = .object properties) (hordered : Ordered v)
    (hencoded : encoded = encodeText (stringify v))
    (hlarge : encoded.length ≤ maxFullBackupManifestBytes) :
    readManifest (before ++ (encoded ++ fullBackupFooter encoded.length)) = .ok v.written := by
  have hbytes : bytesOf (before ++ (encoded ++ fullBackupFooter encoded.length))
      (manifestStart (before ++ (encoded ++ fullBackupFooter encoded.length)))
      ((before ++ (encoded ++ fullBackupFooter encoded.length)).length - fullBackupFooterBytes) =
        encoded := by
    have hslice := Span.slice_append before encoded (fullBackupFooter encoded.length)
    rw [manifestStart_file hlarge]
    simp only [length_append, length_fullBackupFooter] at hslice ⊢
    rw [← add_assoc, Nat.add_sub_cancel]
    exact hslice
  have hdecode : decodeText encoded = some (stringify v) := by
    rw [hencoded, hobject]
    unfold stringify
    rw [Value.text]
    exact decodeText_encodeText (by decide)
  unfold readManifest
  rw [hbytes, hdecode, Option.bind_some, parse_stringify hordered]

theorem header_file (hheader : fullBackupHeader <+: before) :
    bytesOf (before ++ (encoded ++ fullBackupFooter encoded.length)) 0 fullBackupHeaderBytes =
      fullBackupHeader := by
  obtain ⟨region, rfl⟩ := hheader
  rw [append_assoc]
  exact Span.slice_append [] fullBackupHeader _

/-- A file with the header before and a manifest of two bytes or more has the right layout. -/
theorem checkLayout_file (hheader : fullBackupHeader <+: before) (htwo : 2 ≤ encoded.length)
    (hlarge : encoded.length ≤ maxFullBackupManifestBytes) :
    checkLayout (before ++ (encoded ++ fullBackupFooter encoded.length)) = .ok () := by
  have hbefore : fullBackupHeaderBytes ≤ before.length := hheader.length_le
  have hfooter : footerMagic <+: fullBackupFooter encoded.length := prefix_append _ _
  unfold checkLayout
  rw [header_file hheader, footer_file, declaredManifestBytes_file hlarge]
  simp only [length_append, length_fullBackupFooter]
  rw [if_neg (by omega), if_neg (by decide), if_neg (by decide), if_neg (by decide),
    if_neg (not_not.2 hfooter), if_neg (by omega)]

/-- Of a file with the right parts only what its manifest says is left to refuse. -/
theorem openFullBackupFile_file (formats : Formats) {v : Value} {properties : List (Utf16 × Value)}
    (hobject : v = .object properties) (hordered : Ordered v)
    (hencoded : encoded = encodeText (stringify v)) (hheader : fullBackupHeader <+: before)
    (hlarge : encoded.length ≤ maxFullBackupManifestBytes) :
    openFullBackupFile formats (before ++ (encoded ++ fullBackupFooter encoded.length)) =
      (openManifest formats (before ++ (encoded ++ fullBackupFooter encoded.length)) v.written).mapError
        fullBackupFormatError := by
  have htwo : 2 ≤ encoded.length := by
    rw [hencoded, hobject]
    exact two_le_encodeText properties
  unfold openFullBackupFile
  rw [checkLayout_file hheader htwo hlarge, readManifest_file hobject hordered hencoded hlarge]
  rfl

end File

/-- Two lists of lengths that agree in all but the last, and in their sum, are the same. -/
theorem lengths_unique {xs ys : List ℕ} (hlength : xs.length = ys.length)
    (hagree : ∀ i (hx : i < xs.length) (hy : i < ys.length), i + 1 < xs.length → xs[i] = ys[i])
    (hsum : xs.sum = ys.sum) : xs = ys := by
  induction xs generalizing ys with
  | nil => exact (length_eq_zero_iff.1 hlength.symm).symm
  | cons x xs ih =>
    obtain ⟨y, ys, rfl⟩ := exists_cons_of_length_eq_add_one hlength.symm
    rw [length_cons, length_cons] at hlength
    rw [sum_cons, sum_cons] at hsum
    cases xs with
    | nil =>
      rw [length_eq_zero_iff.1 (by simpa using hlength.symm : ys.length = 0)] at hsum ⊢
      rw [show x = y by simpa using hsum]
    | cons x' xs =>
      have hhead : x = y := hagree 0 (succ_pos _) (succ_pos _) (by simp)
      have hrest : x' :: xs = ys := ih (by omega)
        (fun i hx hy hi => hagree (i + 1) (succ_lt_succ hx) (succ_lt_succ hy)
          (succ_lt_succ hi)) (by omega)
      rw [hhead, hrest]

/-- The ranges that the segments of a document are read from are those of the segments it was added
with. -/
theorem spans_of_stored {segments : List Bytes} (htile : SegmentsTile entry)
    (hframing : RightFraming entry.row segments)
    (hlength : entry.length = (segments.map length).sum) :
    (range entry.row.chunkCount).map (segmentSpan entry) =
      spansFrom entry.offset (segments.map length) := by
  refine htile.tiles.unique (tiles_spansFrom entry.offset _) ?_
  rw [length_spansFrom]
  refine lengths_unique ?_ (fun i hx hy hi => ?_) ?_
  · simp only [length_map, length_range, hframing.count]
  · simp only [length_map, length_range] at hx hy hi
    simp only [getElem_map, getElem_range]
    rw [htile.full i hi, hframing.full i hy hi]
  · rw [← hlength]
    have htotal := htile.tiles.sum_length
    omega

/-- The segments of a document that was added are read from the file as they were added. -/
theorem readSegments_stored {file : Bytes} {document : DocumentResponse × List Bytes}
    (hstored : Stored file entry document) (htile : SegmentsTile entry)
    (hframing : RightFraming document.1 document.2) :
    (range entry.row.chunkCount).map (fun i : ℕ => readSegment file entry i) =
      document.2.map Except.ok := by
  obtain ⟨before, after, hfile, hoffset⟩ := hstored.place
  have hspans := spans_of_stored htile (hstored.row ▸ hframing) hstored.length
  have hread : (range entry.row.chunkCount).map (fun i : ℕ => readSegment file entry i) =
      ((range entry.row.chunkCount).map (segmentSpan entry)).map
        fun span => .ok (span.slice file) := by
    rw [map_map]
    exact map_congr_left fun i hi => readSegment_eq (mem_range.1 hi)
  have hslices := slice_spansFrom before document.2 after
  rw [← hfile, hoffset] at hslices
  rw [hread, hspans]
  conv_rhs => rw [← hslices, map_map]
  rfl

theorem readAll_stored {file : Bytes} {entries : List FullBackupEntry}
    (hstored : List.Forall₂ (Stored file) entries documents)
    (htiles : ∀ entry ∈ entries, SegmentsTile entry)
    (hframing : ∀ document ∈ documents, RightFraming document.1 document.2) :
    List.Forall₂ (fun entry document => entry.row = document.1 ∧
      (range entry.row.chunkCount).map (fun i : ℕ => readSegment file entry i) =
        document.2.map Except.ok) entries documents := by
  induction hstored with
  | nil => exact .nil
  | cons hs _ ih =>
    obtain ⟨htile, htiles⟩ := forall_mem_cons.1 htiles
    obtain ⟨hframe, hframing⟩ := forall_mem_cons.1 hframing
    exact .cons ⟨hs.row, readSegments_stored hs htile hframe⟩ (ih htiles hframing)

/-- What is signed of a written manifest is what was signed when it was written. -/
theorem canonicalManifest_written (manifest : FullBackupManifest) (integrity : Utf16) :
    canonicalManifest (writtenFields (present (signedProperties manifest integrity))) =
      stringify (.object (present manifest.properties)) := by
  have hpresent : present (signedProperties manifest integrity) =
      present manifest.properties ++ [(units "integrity", .string integrity)] := by
    unfold present signedProperties
    rw [filterMap_append]
    rfl
  have hother : ∀ field ∈ present manifest.properties, field.1 ≠ units "integrity" := by
    intro field hfield
    obtain ⟨property, hproperty, hsome⟩ := mem_filterMap.1 hfield
    obtain ⟨v, -, rfl⟩ := Option.map_eq_some_iff.1 hsome
    have hname : property.1 ∈ ["format", "formatVersion", "createdAt", "vault", "documents",
        "omitted", "unlisted"] := mem_map_of_mem hproperty
    refine fun heq => ?_
    rw [units_injective heq] at hname
    exact absurd hname (by decide)
  have hwithout : without (units "integrity")
      (writtenFields (present (signedProperties manifest integrity))) =
        writtenFields (present manifest.properties) := by
    rw [writtenFields_eq, writtenFields_eq, hpresent, map_append]
    unfold without
    rw [filter_append, filter_eq_self.2 fun field hfield => ?_]
    · rw [map_singleton, filter_cons_of_neg (by simp), filter_nil, append_nil]
    · obtain ⟨written, hwritten, rfl⟩ := mem_map.1 hfield
      exact decide_eq_true (hother written hwritten)
  unfold canonicalManifest
  rw [hwithout]
  exact stringify_written (.object (present manifest.properties))

end HVault.Backup
