import Mathlib
import Remoting.Path.Basic

/-! Paths as text. A text is cut into parts at every separator, and a path is read back from its text
exactly if no segment of it has a separator in it. -/

namespace Remoting

/-- What lies between the separators of a text. A text without a separator is one part. -/
def partsOf (text : String) : List String :=
  (text.toList.splitOn pathSeparator).map String.ofList

theorem cutSegments_eq_splitOn (text : List Char) :
    (cutSegments text).1 :: (cutSegments text).2 = text.splitOn pathSeparator := by
  induction text with
  | nil => rfl
  | cons c rest ih =>
    rw [List.splitOn_cons_eq_if_modifyHead, ← ih]
    by_cases h : c = pathSeparator <;> simp [cutSegments, h]

theorem segmentsOf_eq_partsOf (text : String) : segmentsOf text = partsOf text := by
  rw [partsOf, ← cutSegments_eq_splitOn]
  rfl

theorem toList_joinSegments (segments : List String) :
    (joinSegments segments).toList = [pathSeparator].intercalate (segments.map String.toList) := by
  induction segments with
  | nil => rfl
  | cons segment others ih =>
    cases others with
    | nil => simp [joinSegments]
    | cons second others =>
      rw [List.map_cons, List.map_cons, List.intercalate_cons_cons, ← List.map_cons, ← ih]
      simp [joinSegments]

theorem not_mem_of_mem_splitOn {text part : List Char} (h : part ∈ text.splitOn pathSeparator) :
    pathSeparator ∉ part := by
  induction text generalizing part with
  | nil =>
    rw [List.splitOn_nil, List.mem_singleton] at h
    exact h ▸ List.not_mem_nil
  | cons c rest ih =>
    rw [List.splitOn_cons_eq_if_modifyHead] at h
    by_cases hc : (c == pathSeparator) = true
    · rw [if_pos hc, List.mem_cons] at h
      rcases h with rfl | h
      · exact List.not_mem_nil
      · exact ih h
    · -- The character goes to the front of the first part of the rest.
      obtain ⟨first, others, hrest⟩ :=
        List.exists_cons_of_ne_nil (List.splitOn_ne_nil pathSeparator rest)
      rw [if_neg hc, hrest, List.modifyHead_cons, List.mem_cons] at h
      rcases h with rfl | h
      · rw [List.mem_cons, not_or]
        exact ⟨fun hsame => hc (beq_iff_eq.mpr hsame.symm), ih (hrest ▸ List.mem_cons_self)⟩
      · exact ih (hrest ▸ List.mem_cons_of_mem first h)

theorem not_mem_of_mem_partsOf {text part : String} (h : part ∈ partsOf text) :
    pathSeparator ∉ part.toList := by
  obtain ⟨characters, hmem, rfl⟩ := List.mem_map.mp h
  rw [String.toList_ofList]
  exact not_mem_of_mem_splitOn hmem

theorem partsOf_of_not_mem {text : String} (h : pathSeparator ∉ text.toList) :
    partsOf text = [text] := by
  rw [partsOf, List.splitOn_eq_singleton h, List.map_singleton, String.ofList_toList]

/-- Joining undoes cutting. -/
theorem joinSegments_partsOf (text : String) : joinSegments (partsOf text) = text := by
  apply String.toList_injective
  rw [toList_joinSegments, partsOf, List.map_map]
  simp [Function.comp_def, List.intercalate_splitOn]

/-- What has been joined is cut into the parts of all that was joined. -/
theorem partsOf_joinSegments {segments : List String} (h : segments ≠ []) :
    partsOf (joinSegments segments) = segments.flatMap partsOf := by
  induction segments with
  | nil => exact absurd rfl h
  | cons segment others ih =>
    cases others with
    | nil => simp [joinSegments]
    | cons second others =>
      have htext : (joinSegments (segment :: second :: others)).toList =
          segment.toList ++ pathSeparator :: (joinSegments (second :: others)).toList := by
        simp [joinSegments]
      rw [List.flatMap_cons, ← ih (List.cons_ne_nil second others), partsOf, htext,
        List.splitOn_append_cons_self, List.map_append]
      rfl

/-- Cutting undoes joining where nothing that was joined is in several parts itself. -/
theorem flatMap_partsOf {segments : List String}
    (h : ∀ segment ∈ segments, pathSeparator ∉ segment.toList) :
    segments.flatMap partsOf = segments := by
  rw [List.flatMap_congr fun segment hmem => partsOf_of_not_mem (h segment hmem)]
  exact List.flatMap_pure_eq_map id segments |>.trans (List.map_id segments)

namespace ServicePath

variable {path other : ServicePath} {segments : List String} {text : String}

theorem eq_of_segments (h : path.segments = other.segments) : path = other := by
  obtain ⟨root, chain, method, hpath⟩ := path
  obtain ⟨root', chain', method', hother⟩ := other
  obtain ⟨hroot, hrest⟩ := List.cons.inj h
  obtain ⟨hchain, hmethod⟩ := List.append_inj' hrest rfl
  obtain rfl := hroot
  obtain rfl := hchain
  obtain rfl := List.head_eq_of_cons_eq hmethod
  rfl

/-- Segments are refused if there are too few of them or, where there are enough, for the first empty
one. All others are a path. -/
theorem ofSegments_cases (segments : List String) :
    (segments.length < 2 ∧ ofSegments segments = .error (.tooFewSegments segments.length)) ∨
      2 ≤ segments.length ∧
        ((∃ index, segments.idxOf? "" = some index ∧
            ofSegments segments = .error (.emptySegment index)) ∨
          "" ∉ segments ∧ ∃ path, ofSegments segments = .ok path) := by
  match segments with
  | [] => exact .inl ⟨Nat.zero_lt_two, rfl⟩
  | [_] => exact .inl ⟨Nat.one_lt_two, rfl⟩
  | root :: second :: rest =>
    refine .inr ⟨by simp, ?_⟩
    unfold ofSegments
    dsimp only
    split
    · rename_i index hindex
      exact .inl ⟨index, hindex, rfl⟩
    · rename_i hnone
      exact .inr ⟨List.idxOf?_eq_none_iff.mp hnone, _, rfl⟩

theorem exists_ofSegments_iff :
    (∃ path, ofSegments segments = .ok path) ↔ 2 ≤ segments.length ∧ "" ∉ segments := by
  rcases ofSegments_cases segments with ⟨hfew, h⟩ | ⟨henough, ⟨index, hindex, h⟩ | ⟨hnone, h⟩⟩
  · refine iff_of_false (by simp [h]) fun hboth => ?_
    omega
  · refine iff_of_false (by simp [h]) fun hboth => ?_
    rw [List.idxOf?_eq_none_iff.mpr hboth.2] at hindex
    cases hindex
  · exact iff_of_true h ⟨henough, hnone⟩

theorem ofSegments_eq_error_iff {error : PathError} :
    ofSegments segments = .error error ↔
      segments.length < 2 ∧ error = .tooFewSegments segments.length ∨
        2 ≤ segments.length ∧
          ∃ index, segments.idxOf? "" = some index ∧ error = .emptySegment index := by
  rcases ofSegments_cases segments with ⟨hfew, h⟩ | ⟨henough, ⟨index, hindex, h⟩ | ⟨hnone, found, h⟩⟩
  · have hnot : ¬2 ≤ segments.length := by omega
    simp [h, hfew, hnot, eq_comm]
  · have hnot : ¬segments.length < 2 := by omega
    simp [h, henough, hnot, hindex, eq_comm]
  · have hnot : ¬segments.length < 2 := by omega
    simp [h, hnot, List.idxOf?_eq_none_iff.mpr hnone]

theorem ofSegments_eq_ok_iff : ofSegments segments = .ok path ↔ path.segments = segments := by
  refine ⟨segments_of_ofSegments, ?_⟩
  rintro rfl
  have hnonempty : "" ∉ path.segments := fun hmem => path.nonempty "" hmem rfl
  obtain ⟨found, hfound⟩ := exists_ofSegments_iff.mpr ⟨by simp [ServicePath.segments], hnonempty⟩
  rw [hfound, eq_of_segments (segments_of_ofSegments hfound)]

theorem ne_of_ofSegments {others : List String} (h : ofSegments segments = .ok path)
    (h' : ofSegments others = .ok other) (hne : segments ≠ others) : path ≠ other := by
  rintro rfl
  exact hne ((segments_of_ofSegments h).symm.trans (segments_of_ofSegments h'))

theorem parse_eq (text : String) : parse text = ofSegments (partsOf text) := by
  rw [parse, segmentsOf_eq_partsOf]

theorem partsOf_format (path : ServicePath) :
    partsOf path.format = path.segments.flatMap partsOf :=
  partsOf_joinSegments (List.cons_ne_nil path.root _)

theorem format_of_parse (h : parse text = .ok path) : path.format = text := by
  rw [parse_eq, ofSegments_eq_ok_iff] at h
  rw [format, h, joinSegments_partsOf]

/-- No separator occurs in any segment. -/
def SeparatorFree (path : ServicePath) : Prop :=
  ∀ segment ∈ path.segments, pathSeparator ∉ segment.toList

theorem separatorFree_of_parse (h : parse text = .ok path) : path.SeparatorFree := by
  rw [parse_eq, ofSegments_eq_ok_iff] at h
  intro segment hmem
  rw [h] at hmem
  exact not_mem_of_mem_partsOf hmem

theorem parse_format (h : path.SeparatorFree) : parse path.format = .ok path := by
  rw [parse_eq, partsOf_format, flatMap_partsOf h]
  exact ofSegments_eq_ok_iff.mpr rfl

theorem SeparatorFree.eq_of_format (h : path.SeparatorFree) (h' : other.SeparatorFree)
    (hformat : path.format = other.format) : path = other := by
  have hpath := parse_format h
  rw [hformat, parse_format h'] at hpath
  exact (Except.ok.inj hpath).symm

/-- The paths without a separator in their segments and the texts whose parts are at least two and
none of them empty are each other's, and every other text is refused for its parts. -/
theorem paths_and_texts_correspond :
    (∀ path : ServicePath, parse path.format = .ok path ↔ path.SeparatorFree) ∧
    (∀ path other : ServicePath, path.SeparatorFree → other.SeparatorFree → path ≠ other →
      path.format ≠ other.format) ∧
    (∀ segments path, ofSegments segments = .ok path →
      (path.SeparatorFree ↔ ∀ segment ∈ segments, pathSeparator ∉ segment.toList)) ∧
    (∀ above method path, ofMethod above method = .ok path →
      (path.SeparatorFree ↔ ∀ segment ∈ above ++ [method], pathSeparator ∉ segment.toList)) ∧
    ∀ text,
      ((∃ path, parse text = .ok path) ↔ 2 ≤ (partsOf text).length ∧ "" ∉ partsOf text) ∧
      (∀ path, parse text = .ok path → path.SeparatorFree ∧ path.format = text ∧
        path.root :: (path.chain ++ [path.method]) = partsOf text) ∧
      ∀ error, parse text = .error error ↔
        (partsOf text).length < 2 ∧ error = .tooFewSegments (partsOf text).length ∨
          2 ≤ (partsOf text).length ∧
            ∃ index, (partsOf text).idxOf? "" = some index ∧ error = .emptySegment index := by
  refine ⟨fun path => ⟨separatorFree_of_parse, parse_format⟩, fun path other hpath hother hne => ?_,
    fun segments path h => ?_, fun above method path h => ?_, fun text => ⟨?_, fun path h => ?_, ?_⟩⟩
  · exact fun hformat => hne (hpath.eq_of_format hother hformat)
  · rw [SeparatorFree, segments_of_ofSegments h]
  · rw [SeparatorFree, segments_of_ofSegments h]
  · rw [parse_eq]
    exact exists_ofSegments_iff
  · refine ⟨separatorFree_of_parse h, format_of_parse h, ?_⟩
    rw [parse_eq] at h
    exact ofSegments_eq_ok_iff.mp h
  · rw [parse_eq]
    exact fun error => ofSegments_eq_error_iff

/-- Two paths of the same names in another order have different texts, from which they are read back;
a text with an empty part is refused. -/
theorem routes_read_back :
    ∃ path other, ofSegments ["SuperService", "Trivial", "DoSomething"] = .ok path ∧
      ofMethod ["SuperService", "DoSomething"] "Trivial" = .ok other ∧ path ≠ other ∧
      path.SeparatorFree ∧ other.SeparatorFree ∧ path.format ≠ other.format ∧
      parse path.format = .ok path ∧ parse other.format = .ok other ∧
      parse "SuperService/Trivial/DoSomething" = .ok path ∧
      path.format = "SuperService/Trivial/DoSomething" ∧
      path.root :: (path.chain ++ [path.method]) = ["SuperService", "Trivial", "DoSomething"] ∧
      parse "Root//Method" = .error (.emptySegment 1) := by
  obtain ⟨hback, hdistinct, hsegments, hmethod, htexts⟩ := paths_and_texts_correspond
  obtain ⟨path, hpath⟩ : ∃ path,
    ofSegments ["SuperService", "Trivial", "DoSomething"] = .ok path := ⟨_, rfl⟩
  obtain ⟨other, hother⟩ : ∃ other,
    ofMethod ["SuperService", "DoSomething"] "Trivial" = .ok other := ⟨_, rfl⟩
  have hparse : parse "SuperService/Trivial/DoSomething" = .ok path := hpath ▸ rfl
  have hparts : partsOf "SuperService/Trivial/DoSomething" =
    ["SuperService", "Trivial", "DoSomething"] := rfl
  have hne : path ≠ other := ne_of_ofSegments hpath hother (by decide)
  have hfree : path.SeparatorFree := (hsegments _ path hpath).mpr (by decide)
  have hfree' : other.SeparatorFree := (hmethod _ _ other hother).mpr (by decide)
  obtain ⟨_, hread, _⟩ := htexts "SuperService/Trivial/DoSomething"
  obtain ⟨_, _, herror⟩ := htexts "Root//Method"
  exact ⟨path, other, hpath, hother, hne, hfree, hfree', hdistinct path other hfree hfree' hne,
    (hback path).mpr hfree, (hback other).mpr hfree', hparse, (hread path hparse).2.1,
    hparts ▸ (hread path hparse).2.2,
    (herror _).mpr (.inr ⟨by decide, 1, rfl, rfl⟩)⟩

/-- A separator inside a segment is not told from one between segments, so that one text stands for
two paths and is read as the other one. -/
theorem one_text_of_two_paths :
    ∃ path other, ofSegments ["SuperService/Trivial", "DoSomething"] = .ok path ∧
      ofSegments ["SuperService", "Trivial", "DoSomething"] = .ok other ∧ path ≠ other ∧
      path.format = other.format ∧ path.routeId = other.routeId ∧ parse path.format = .ok other ∧
      parse path.format ≠ .ok path := by
  obtain ⟨path, hpath⟩ : ∃ path,
    ofSegments ["SuperService/Trivial", "DoSomething"] = .ok path := ⟨_, rfl⟩
  obtain ⟨other, hother⟩ : ∃ other,
    ofSegments ["SuperService", "Trivial", "DoSomething"] = .ok other := ⟨_, rfl⟩
  have hformat : path.format = other.format := by
    cases hpath
    cases hother
    rfl
  have hne : path ≠ other := ne_of_ofSegments hpath hother (by decide)
  have hfree : other.SeparatorFree := by
    rw [SeparatorFree, segments_of_ofSegments hother]
    decide
  have hparse : parse path.format = .ok other := hformat ▸ parse_format hfree
  have hroute : path.routeId = other.routeId := by rw [routeId, routeId, hformat]
  refine ⟨path, other, hpath, hother, hne, hformat, hroute, hparse, fun h => hne ?_⟩
  exact Except.ok.inj (h.symm.trans hparse)

end ServicePath

end Remoting
