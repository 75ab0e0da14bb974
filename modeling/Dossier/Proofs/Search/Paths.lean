import Dossier.Proofs.Json.Places
import Dossier.Proofs.Search.Selection

/-!
Records of selected paths. The values of the paths are put into an object one after another, and what is put
later prevails. Main statement: every selected path reads back from the record exactly if each selected path
that is not put over later, and goes on below another selected path, goes through objects from there.
-/

namespace Dossier.Statement

open Json (at? lookup found put Lasts ReadsBack)

variable {statement : Statement} {kind : Kind} {schema : Schema} {paths : List (List String)}
  {element : List Json → String → Option Json} {payload : Members}

/-- What a row has for a key of a path: what the path leads to in the stored payload. -/
def pathValue (element : List Json → String → Option Json) (payload : Members) : Key → Json
  | .path segments => found element (.object payload) segments
  | .column _ _ => .null

/-- A value that arrives parsed lands as it is. -/
theorem extracted_postgres (h : statement.dialect = .postgres) (value : Json) : statement.extracted value = value := by
  unfold extracted
  split
  · rename_i hsqlite
    rw [h] at hsqlite
    cases hsqlite
  · rfl

/-- The values of paths are put into the payload one after another. -/
theorem slotAfter_paths (h : statement.dialect = .postgres) (slot : Json) :
    (paths.map Key.path).foldl (statement.slotAfter (pathValue element payload)) (some slot) =
      some (put (found element (.object payload)) paths slot) := by
  induction paths generalizing slot with
  | nil => rfl
  | cons path rest ih =>
      rw [List.map_cons, List.foldl_cons, slotAfter, extracted_postgres h, ih]
      rfl

theorem slotAfter_paths_none (h : statement.dialect = .postgres) (hpaths : paths ≠ []) :
    (paths.map Key.path).foldl (statement.slotAfter (pathValue element payload)) none =
      some (put (found element (.object payload)) paths (.object [])) := by
  obtain ⟨path, rest, rfl⟩ := List.exists_cons_of_ne_nil hpaths
  rw [← slotAfter_paths h]
  rfl

/-- Before it is decoded, the record has what was put in the payload column, and nothing else. -/
theorem landed_paths (h : statement.dialect = .postgres) (hpaths : paths ≠ []) (c : Column) :
    statement.landed (paths.map .path) (pathValue element payload) c =
      if c.name = statement.kind.payload then some (put (found element (.object payload)) paths (.object []))
      else none := by
  have hany : (paths.map Key.path).any (·.selects c) = false := by
    rw [List.any_map, List.any_eq_false]
    exact fun _ _ => Bool.false_ne_true
  rw [landed, hany, if_neg Bool.false_ne_true, slotAfter_paths_none h hpaths]

/-- The record of selected paths has what was put under every name that is not reserved. -/
theorem Selects.exists_decode_paths (h : statement.Selects ⟨kind, schema, .postgres⟩ (paths.map .path))
    (hpaths : paths ≠ []) {row : Row} (hrow : Gives kind (paths.map .path) (pathValue element payload) row) :
    ∃ record inside : Members, statement.decode row = .ok (.object record) ∧
      put (found element (.object payload)) paths (.object []) = .object inside ∧
      ∀ name, record.get? name = if kind.isReserved name then none else inside.get? name := by
  have hbelow : [] ∉ paths := fun hmem => h.fields (.path []) (List.mem_map_of_mem hmem) rfl
  obtain ⟨inside, hput, -⟩ := Json.put_object (found element (.object payload)) hbelow Members.sorted_nil
  have hlanded : ∀ c, (statement.landed (paths.map .path) (pathValue element payload) c).bind c.decoded? =
      if c.name = kind.payload then some (.object inside) else none := by
    intro c
    rw [landed_paths h.dialect hpaths, hput, h.kind]
    split <;> rfl
  obtain ⟨decoded, hdecode, hfills⟩ := (h.fills fun _ _ => rfl).exists_decoded fun c _ v hv => by
    have hc := hlanded c
    rw [hv, Option.bind_some] at hc
    rw [landed_paths h.dialect hpaths] at hv
    split at hc
    · rw [hc]
      rfl
    · rename_i hname
      rw [h.kind, if_neg hname] at hv
      cases hv
  refine ⟨kind.flatten decoded, inside, ?_, hput, fun name => ?_⟩
  · rw [h.decode_eq hrow]
    exact congrArg (Except.map _) hdecode
  · rw [hfills.get?_flatten ((hlanded _).trans (if_pos rfl))]
    split
    · rename_i hreserved
      obtain ⟨c, hc, rfl⟩ := List.mem_map.mp (Kind.mem_columns_of_isReserved hreserved)
      rw [hfills.columns c hc, hlanded, if_neg (Kind.ne_payload_of_isReserved hreserved)]
    · rfl

/-! ### Reading back -/

/-- A path that begins with a reserved name leads nowhere, in the payload and in the record; every other path
leads where it leads in what was put. -/
theorem readsBack_record {record inside : Members} (hfree : ∀ name ∈ payload.names, kind.isReserved name = false)
    (hrecord : ∀ name, record.get? name = if kind.isReserved name then none else inside.get? name)
    {path : List String} (hpath : path ≠ []) :
    ReadsBack element (.object payload) (.object record) path ↔
      ((∀ name ∈ path.head?, kind.isReserved name = false) →
        ReadsBack element (.object payload) (.object inside) path) := by
  obtain ⟨name, rest, rfl⟩ := List.exists_cons_of_ne_nil hpath
  cases hreserved : kind.isReserved name with
  | true =>
      have hnone : payload.get? name = none := by
        rw [Members.get?_eq_none_iff]
        intro hmem
        rw [hfree name hmem] at hreserved
        cases hreserved
      have hgone : lookup element (name :: rest) (.object record) = none := by
        rw [lookup, hrecord, if_pos hreserved]
        rfl
      refine iff_of_true ?_ fun hall => ?_
      · rw [ReadsBack, hgone, lookup, hnone]
        intro value hvalue
        cases hvalue
      · rw [hall name rfl] at hreserved
        cases hreserved
  | false =>
      have hsame : lookup element (name :: rest) (.object record) = lookup element (name :: rest) (.object inside) := by
        rw [lookup, lookup, hrecord, hreserved]
        rfl
      rw [ReadsBack, ReadsBack, hsame]
      exact ⟨fun h _ => h, fun h => h fun other hother => by cases hother; exact hreserved⟩

/-- **Selected paths.** The row that has the stored value of each selected path, or null, is decoded. Each path
reads back from its record as it is stored, or as null or nothing where the payload has nothing, exactly if
every path that is not put over by a later one stands inside objects below each other selected path above it. -/
theorem readsBack_iff_of_decode (hsearch : statement.IsSearch ⟨kind, schema, .postgres⟩ (paths.map .path))
    (helement : ∀ items name item, element items name = some item → item ∈ items)
    (hordered : (Json.object payload).Ordered) (hfree : ∀ name ∈ payload.names, kind.isReserved name = false)
    {row : Row} (hrow : ∀ (position : Nat) path, paths[position]? = some path →
      Members.get? row ("_f" ++ toString position) = some (found element (.object payload) path)) :
    ∃ record : Members, statement.decode row = .ok (.object record) ∧
      ((∀ path ∈ paths, ReadsBack element (.object payload) (.object record) path) ↔
        ∀ above ∈ paths, ∀ rest ≠ [], (∀ name ∈ above.head?, kind.isReserved name = false) →
          Lasts paths (above ++ rest) →
            ∃ value, lookup element above (.object payload) = some value ∧ (at? rest value).isSome) := by
  have hselects := hsearch.selects
  have hgives : Gives kind (paths.map .path) (pathValue element payload) row := by
    intro position key hkey
    rw [List.getElem?_map, Option.map_eq_some_iff] at hkey
    obtain ⟨path, hpath, rfl⟩ := hkey
    exact hrow position path hpath
  by_cases hpaths : paths = []
  · subst hpaths
    obtain ⟨decoded, hdecode, -⟩ := (hselects.fills fun _ _ => rfl).exists_decoded fun c _ v hv => by
      have hnone : statement.landed ([].map .path) (pathValue element payload) c = none := ite_self none
      cases hnone.symm.trans hv
    refine ⟨kind.flatten decoded, ?_, iff_of_true nofun nofun⟩
    rw [hselects.decode_eq hgives]
    exact congrArg (Except.map _) hdecode
  obtain ⟨record, inside, hdecode, hput, hrecord⟩ := hselects.exists_decode_paths hpaths hgives
  have hne : ∀ path ∈ paths, path ≠ [] := fun path hpath => hselects.fields (.path path) (List.mem_map_of_mem hpath)
  have hreads : ∀ path ∈ paths, ReadsBack element (.object payload) (.object record) path ↔
      ((∀ name ∈ path.head?, kind.isReserved name = false) →
        ReadsBack element (.object payload) (.object inside) path) :=
    fun path hpath => readsBack_record hfree hrecord (hne path hpath)
  refine ⟨record, hdecode, fun hall above habove rest hrest hhead hlasts => ?_, fun hall path hpath => ?_⟩
  · have hback := (hreads above habove).mp (hall above habove) hhead
    rw [← hput] at hback
    exact Json.at?_of_readsBack hrest hlasts hback
  · rw [hreads path hpath, ← hput]
    intro hhead
    refine Json.readsBack_put helement hordered hpath _ fun above habove hprefix rest hrest hlasts => ?_
    refine hall above habove rest hrest (fun name hname => hhead name ?_) hlasts
    obtain ⟨more, rfl⟩ := hprefix
    obtain ⟨first, tail, rfl⟩ := List.exists_cons_of_ne_nil (hne above habove)
    exact hname

theorem readsBack_iff_of_decode_nested :
    let element : List Json → String → Option Json := fun items name => if name = "0" then items.head? else none
    let payload : Members := [("a", .object [("b", .nat 1), ("c", .null)]), ("d", .array [.nat 2])]
    let texts := ["d.0", "a.b.e", "a", "d", "a.b", "f.g"]
    let paths := [["d", "0"], ["a", "b", "e"], ["a"], ["d"], ["a", "b"], ["f", "g"]]
    let row : Row := [("_f0", .nat 2), ("_f1", .null), ("_f2", .object [("b", .nat 1), ("c", .null)]),
      ("_f3", .array [.nat 2]), ("_f4", .nat 1), ("_f5", .null)]
    texts.mapM (Key.ofText? .document) = .ok (paths.map .path) ∧
      ∃ statement : Statement, statement.IsSearch ⟨.document, .empty, .postgres⟩ (paths.map .path) ∧
        ∃ record : Members, statement.decode row = .ok (.object record) ∧
          ∀ path ∈ paths, ReadsBack element (.object payload) (.object record) path := by
  intro element payload texts paths row
  have hkeys : texts.mapM (Key.ofText? .document) = .ok (paths.map .path) := rfl
  obtain ⟨statement, hsearch⟩ := exists_isSearch ⟨.document, .empty, .postgres⟩ texts .null
    { Traits.default with fields := .fields (texts.map .string) } hkeys rfl rfl (by decide +kernel)
  have helement : ∀ items name item, element items name = some item → item ∈ items := by
    intro items name item h
    change (if name = "0" then items.head? else none) = some item at h
    split at h
    · exact List.mem_of_mem_head? h
    · cases h
  have hrow : ∀ (position : Nat) path, paths[position]? = some path →
      Members.get? row ("_f" ++ toString position) = some (found element (.object payload) path) := by
    intro position path hpath
    rcases position with _ | _ | _ | _ | _ | _ | position
    all_goals
      cases hpath
      try rfl
  obtain ⟨record, hdecode, hreads⟩ :=
    readsBack_iff_of_decode hsearch helement (by decide) (by decide) hrow
  refine ⟨hkeys, statement, hsearch, record, hdecode, hreads.mpr fun above habove rest hrest _ hlasts => ?_⟩
  have hlast : above ++ rest = ["a"] ∨ above ++ rest = ["d"] ∨ above ++ rest = ["a", "b"] ∨
      above ++ rest = ["f", "g"] := by
    simp only [paths, Json.lasts_cons_iff, Json.not_lasts_nil, or_false] at hlasts
    rcases hlasts with ⟨heq, h⟩ | ⟨heq, h⟩ | ⟨heq, -⟩ | ⟨heq, -⟩ | ⟨heq, -⟩ | ⟨heq, -⟩
    · rw [← heq] at h
      simp at h
    · rw [← heq] at h
      simp at h
    all_goals simp [← heq]
  have hbelow : above = ["a"] ∧ rest = ["b"] := by
    simp only [paths, List.mem_cons, List.not_mem_nil, or_false] at habove
    rcases habove with rfl | rfl | rfl | rfl | rfl | rfl
    all_goals
      obtain ⟨name, tail, rfl⟩ := List.exists_cons_of_ne_nil hrest
      simp at hlast <;> simp [hlast]
  obtain ⟨rfl, rfl⟩ := hbelow
  exact ⟨_, rfl, rfl⟩

/-- A path that goes on below a number puts an object over it, even where it has nothing to put there. -/
theorem decode_path_below_number :
    let element : List Json → String → Option Json := fun _ _ => none
    let payload : Members := [("a", .nat 5)]
    let row : Row := [("_f0", .nat 5), ("_f1", .null)]
    ∃ statement : Statement, statement.IsSearch ⟨.document, .empty, .postgres⟩ [.path ["a"], .path ["a", "b"]] ∧
      found element (.object payload) ["a"] = .nat 5 ∧ found element (.object payload) ["a", "b"] = .null ∧
      statement.decode row = .ok (.object [("a", .object [("b", .null)])]) ∧
      ¬ ReadsBack element (.object payload) (.object [("a", .object [("b", .null)])]) ["a"] := by
  intro element payload row
  obtain ⟨statement, hsearch⟩ := exists_isSearch ⟨.document, .empty, .postgres⟩ ["a", "a.b"] .null
    { Traits.default with fields := .fields (["a", "a.b"].map .string) } rfl rfl rfl (by decide +kernel)
  refine ⟨statement, hsearch, rfl, rfl, ?_, ?_⟩
  · rw [hsearch.selects.decode_selecting]
    rfl
  · intro h
    cases h

end Dossier.Statement
