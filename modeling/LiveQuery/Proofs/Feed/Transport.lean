import LiveQuery.Proofs.Feed.LastLine
import LiveQuery.Proofs.Json.RoundTrip
import LiveQuery.Proofs.Text.ByteOrder

/-!
# Values travel unchanged

A value is written as one line: its text holds no line feed, and no blank stands at its ends. So
the lines of what was written are the values one by one, and the reader at the other end gets each
of them back, in whatever chunks the bytes come.
-/

namespace LiveQuery.Feed

/-! ### The bytes of a text -/

theorem bytesOf_append (s t : String) : bytesOf (s ++ t) = bytesOf s ++ bytesOf t := by
  rw [bytesOf_eq, bytesOf_eq, bytesOf_eq, String.toList_append, List.flatMap_append]

theorem bytesOf_encodeLine (j : Json) : bytesOf (encodeLine j) = bytesOf j.render ++ [lineFeed] := by
  rw [encodeLine, bytesOf_append, bytesOf_eq "\n"]
  rfl

theorem fromUTF8?_bytesOf (s : String) : String.fromUTF8? ⟨(bytesOf s).toArray⟩ = some s := by
  have hbytes : bytesOf s = s.toUTF8.data.toList := toList_loop s.toUTF8 0 []
  rw [hbytes, Array.toArray_toList]
  exact dif_pos s.isValidUTF8

/-- Only control characters have bytes below the space. -/
theorem le_of_mem_utf8EncodeChar {c : Char} (h : 32 ≤ c.toNat) :
    ∀ b ∈ String.utf8EncodeChar c, 32 ≤ b.toNat := by
  have hc : 32 ≤ c.val.toNat := h
  simp only [String.utf8EncodeChar]
  split_ifs
  all_goals
    simp only [List.forall_mem_cons, List.not_mem_nil, false_implies, implies_true, and_true,
      UInt8.toNat_ofNat', Nat.reducePow]
    omega

/-- A text without control characters is within one line. -/
theorem lineFeed_not_mem_bytesOf {s : String} (h : ∀ c ∈ s.toList, 32 ≤ c.toNat) :
    lineFeed ∉ bytesOf s := by
  rw [bytesOf_eq]
  intro hmem
  obtain ⟨c, hc, hb⟩ := List.mem_flatMap.1 hmem
  exact absurd (le_of_mem_utf8EncodeChar (h c hc) lineFeed hb) (by decide)

theorem exists_utf8EncodeChar {c : Char} (h : Json.Solid c) :
    ∃ b, String.utf8EncodeChar c = [b] ∧ isBlankByte b = false := by
  obtain ⟨hlow, hhigh⟩ := h
  have hc : c.val.toNat ≤ 127 := Nat.le_of_lt hhigh
  have hlow : 32 < c.val.toNat := hlow
  refine ⟨UInt8.ofNat c.val.toNat, ?_, ?_⟩
  · simp only [String.utf8EncodeChar, hc, if_true]
  · have hother : ∀ b : UInt8, b.toNat ≤ 32 → (UInt8.ofNat c.val.toNat == b) = false := by
      intro b hb
      rw [beq_eq_false_iff_ne]
      rintro rfl
      rw [UInt8.toNat_ofNat'] at hb
      omega
    unfold isBlankByte
    simp only [Bool.or_eq_false_iff]
    exact ⟨⟨⟨⟨hother 32 (by decide), hother 9 (by decide)⟩, hother 10 (by decide)⟩,
      hother 12 (by decide)⟩, hother 13 (by decide)⟩

/-! ### One value -/

theorem dropWhile_isBlankByte {c : Char} (h : Json.Solid c) (bytes : List UInt8) :
    (String.utf8EncodeChar c ++ bytes).dropWhile isBlankByte =
      String.utf8EncodeChar c ++ bytes := by
  obtain ⟨b, hb, hblank⟩ := exists_utf8EncodeChar h
  rw [hb]
  exact List.dropWhile_cons_of_neg (by rw [hblank]; exact Bool.false_ne_true)

/-- No blank stands at the ends of a value's text. -/
theorem trimLine_bytesOf {j : Json} {s : String} (h : Json.HasText j s.toList) :
    trimLine (bytesOf s) = bytesOf s := by
  obtain ⟨first, more, hfirst, hfirstSolid, -⟩ := h.first
  obtain ⟨front, last, hlast, hlastSolid⟩ := h.last
  have hstart : (bytesOf s).dropWhile isBlankByte = bytesOf s := by
    rw [bytesOf_eq, hfirst, List.flatMap_cons]
    exact dropWhile_isBlankByte hfirstSolid _
  have hend : (bytesOf s).reverse.dropWhile isBlankByte = (bytesOf s).reverse := by
    obtain ⟨b, hb, -⟩ := exists_utf8EncodeChar hlastSolid
    have hreverse : (bytesOf s).reverse =
        String.utf8EncodeChar last ++ (front.flatMap String.utf8EncodeChar).reverse := by
      rw [bytesOf_eq, hlast, List.flatMap_append, List.reverse_append, List.flatMap_singleton, hb]
      rfl
    rw [hreverse]
    exact dropWhile_isBlankByte hlastSolid _
  rw [trimLine, hstart, hend, List.reverse_reverse]

theorem bytesOf_ne_nil {j : Json} {s : String} (h : Json.HasText j s.toList) : bytesOf s ≠ [] := by
  obtain ⟨first, more, hfirst, -⟩ := h.first
  rw [bytesOf_eq, hfirst, List.flatMap_cons]
  exact List.append_ne_nil_of_left_ne_nil String.utf8EncodeChar_ne_nil _

theorem hasText_render {j : Json} (h : j.WellFormed) : Json.HasText j j.render.toList := by
  obtain ⟨text, htext⟩ := h.exists_hasText
  have hrender : j.render.toList = text := by
    rw [Json.render, String.toList_ofList, htext.append, List.append_nil]
  rwa [hrender]

theorem decodeLine_bytesOf (s : String) : decodeLine (bytesOf s) = Json.parse s := by
  rw [decodeLine, Json.parseBytes, fromUTF8?_bytesOf]
  rfl

/-- The line of a value holds this value. -/
theorem contents_encodeLine {j : Json} (h : j.WellFormed) (hdepth : j.depth ≤ Json.maxDepth) :
    lineResult.contents decodeLine (bytesOf (encodeLine j)) = some (.value j) := by
  have htext := hasText_render h
  rw [bytesOf_encodeLine, contents_terminated, lineResult.contents, trimLine_bytesOf htext,
    if_neg (bytesOf_ne_nil htext), decodeLine_bytesOf, h.parse_render hdepth]

/-! ### Any number of them -/

theorem linesOf_encodeLine {values : List Json} (h : ∀ j ∈ values, j.WellFormed) :
    linesOf (values.flatMap fun j => bytesOf (encodeLine j)) =
      values.map fun j => bytesOf (encodeLine j) := by
  induction values with
  | nil => rfl
  | cons j more ih =>
    obtain ⟨hj, hmore⟩ := List.forall_mem_cons.1 h
    have hline : lineFeed ∉ bytesOf j.render := lineFeed_not_mem_bytesOf (hasText_render hj).printed
    rw [List.flatMap_cons, List.map_cons, ← ih hmore, bytesOf_encodeLine, List.append_assoc]
    exact linesOf_line hline _

/-- However the lines of some values come in chunks, the calls of a reader whose limit they are
within give the values in their order, and nothing afterwards. -/
theorem values_travel (limit : Option Nat) {values : List Json}
    (hvalues : ∀ j ∈ values, j.WellFormed ∧ j.depth ≤ Json.maxDepth)
    (hfits : ∀ j ∈ values, (bytesOf j.render).length + 1 ≤ limit.getD unlimited)
    {chunks : List (List UInt8)}
    (hchunks : chunks.flatten = values.flatMap fun j => bytesOf (encodeLine j)) :
    (LineReader.ofChunks limit chunks).readAll decodeLine = values.map .value ∧
      ∀ n, (((LineReader.ofChunks limit chunks).afterReads decodeLine n).read decodeLine).1 =
        (values.map .value)[n]? := by
  have hreadings : readings decodeLine (limit.getD unlimited) chunks.flatten =
      values.map .value := by
    rw [readings, hchunks, linesOf_encodeLine fun j hj => (hvalues j hj).1, List.filterMap_map,
      ← List.filterMap_eq_map]
    apply List.filterMap_congr
    intro j hj
    obtain ⟨hwell, hdepth⟩ := hvalues j hj
    have hlength : (bytesOf (encodeLine j)).length ≤ limit.getD unlimited := by
      rw [bytesOf_encodeLine, List.length_append]
      exact hfits j hj
    show readLine _ _ _ _ = _
    rw [readLine_eq, if_neg (Nat.not_lt.2 hlength), contents_encodeLine hwell hdepth]
    rfl
  refine ⟨?_, fun n => ?_⟩
  · rw [LineReader.readAll_eq_readings]
    exact hreadings
  · rw [LineReader.read_afterReads, ← hreadings]
    rfl

theorem values_travel_of_two_values :
    let j : Json := .object [("a\n", .array [.int (-1), .float 1.5]), ("ü", .str "\x22")]
    let chunks : List (List UInt8) := [[123, 34, 97, 92, 110, 34, 58, 91, 45],
      [49, 44, 49, 46, 53, 93, 44, 34, 195], [188, 34, 58, 34, 92, 34, 34, 125, 10, 110, 117],
      [108, 108, 10]]
    let r := LineReader.ofChunks (some 27) chunks
    r.readAll decodeLine = [.value j, .value .null] ∧
      (r.read decodeLine).1 = some (.value j) ∧
      ((r.afterReads decodeLine 1).read decodeLine).1 = some (.value .null) ∧
      ((r.afterReads decodeLine 2).read decodeLine).1 = none := by
  intro j chunks r
  have harray : (Json.array [.int (-1), .float 1.5]).WellFormed :=
    .array (List.forall_mem_cons.2 ⟨.int (by decide) (by decide),
      List.forall_mem_singleton.2 (.float (by decide +kernel))⟩)
  have hj : j.WellFormed :=
    .object (List.pairwise_pair.2 (by decide +kernel))
      (List.forall_mem_cons.2 ⟨harray, List.forall_mem_singleton.2 (.str _)⟩)
  have hvalues : ∀ k ∈ [j, .null], k.WellFormed ∧ k.depth ≤ Json.maxDepth :=
    List.forall_mem_cons.2 ⟨⟨hj, by decide +kernel⟩,
      List.forall_mem_singleton.2 ⟨.null, by decide +kernel⟩⟩
  have hfits : ∀ k ∈ [j, .null], (bytesOf k.render).length + 1 ≤ 27 := by
    simp only [bytesOf_eq]
    decide +kernel
  have hchunks : chunks.flatten = [j, .null].flatMap fun k => bytesOf (encodeLine k) := by
    simp only [bytesOf_eq]
    decide +kernel
  obtain ⟨hall, hcalls⟩ := values_travel (some 27) hvalues hfits hchunks
  exact ⟨hall, hcalls 0, hcalls 1, hcalls 2⟩

end LiveQuery.Feed
