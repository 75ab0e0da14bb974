import Dossier.Proofs.Json.Members
import Dossier.Proofs.Session.Interruption
import Dossier.Proofs.Session.Outcomes
import Dossier.Proofs.Session.Types
import Mathlib

/-!
What a session keeps of entities. Every record that goes by takes the place of what was kept under its identity, be it
the whole record or only the fields that a search asked for; a deletion takes away what was kept. So what is kept of an
identity is the record that went by last. Main statement: `kept_after_start`.
-/

namespace Dossier

/-- A record carries all attributes of another. -/
def Json.Carries (record other : Json) : Prop :=
  ∀ name value, other.get? name = some value → record.get? name = some value

/-- Whether records are selected with all their fields. -/
def Selection.isWhole : Selection → Bool
  | .all => true
  | .fields _ => false

/-- Whether a request asks for some fields of records only. -/
def Request.isPartial : Request → Bool
  | .search _ _ traits | .searchDocuments _ _ traits => !traits.fields.isWhole
  | _ => false

/-- What a session sees of entities: records that go by, whole or not, and deletions. -/
inductive Sight where
  | shown (whole : Bool) (record : Json)
  | deleted (id : String)

namespace Sight

def identity? : Sight → Option String
  | .shown _ record => (record.get? identityName).bind Json.string?
  | .deleted id => some id

def record? : Sight → Option Json
  | .shown _ record => some record
  | .deleted _ => none

/-- What is kept of entities after a sight. -/
def note (entities : Members) (sight : Sight) : Members :=
  match sight.identity?, sight.record? with
  | some id, some record => Members.insert id record entities
  | some id, none => Members.erase id entities
  | none, _ => entities

theorem sorted_note {entities : Members} (h : entities.Sorted) (sight : Sight) : (note entities sight).Sorted := by
  unfold note
  split
  · exact Members.sorted_insert h _ _
  · exact Members.sorted_erase h _
  · exact h

theorem get?_note {entities : Members} (h : entities.Sorted) (sight : Sight) (id : String) :
    (note entities sight).get? id = if sight.identity? = some id then sight.record? else entities.get? id := by
  unfold note
  cases hidentity : sight.identity? with
  | none => rfl
  | some other =>
      cases hrecord : sight.record? with
      | some record =>
          rw [Members.get?_insert]
          simp only [Option.some.injEq, eq_comm]
      | none =>
          rw [Members.get?_erase h]
          simp only [Option.some.injEq, eq_comm]

/-- What is kept of an identity is the last that was seen of it. -/
theorem get?_foldl_note {entities : Members} (h : entities.Sorted) (sights : List Sight) (id : String) :
    (sights.foldl note entities).get? id =
      ((sights.filter (·.identity? = some id)).getLast?).elim (entities.get? id) record? := by
  have hsorted : ∀ sights : List Sight, (sights.foldl note entities).Sorted := by
    intro sights
    induction sights using List.reverseRecOn with
    | nil => exact h
    | append_singleton sights last ih =>
        rw [List.foldl_append]
        exact sorted_note ih last
  induction sights using List.reverseRecOn with
  | nil => rfl
  | append_singleton sights last ih =>
      rw [List.foldl_append, List.foldl_cons, List.foldl_nil, get?_note (hsorted sights), List.filter_append, ih]
      by_cases hlast : last.identity? = some id
      · simp [hlast]
      · simp [hlast]

end Sight

namespace Session

variable {α β : Type}

/-! ### Sights of work -/

/-- What is seen after some work, if that succeeds. -/
def followed (w : Work α) (sights : α → Session → List Sight) (s : Session) : List Sight :=
  match w.run s with
  | (.ok a, next) => sights a next
  | (.error _, _) => []

theorem followed_of_ok {w : Work α} {s next : Session} {a : α} (h : w.run s = (.ok a, next))
    (sights : α → Session → List Sight) : followed w sights s = sights a next := by
  unfold followed
  rw [h]

theorem exists_of_mem_followed {w : Work α} {sights : α → Session → List Sight} {s : Session} {sight : Sight}
    (h : sight ∈ followed w sights s) : ∃ a next, w.run s = (.ok a, next) ∧ sight ∈ sights a next := by
  unfold followed at h
  split at h
  · rename_i a next hrun
    exact ⟨a, next, hrun, h⟩
  · cases h

/-- A record that is given, whole. -/
def told : Except Fault Json → List Sight
  | .ok record => [.shown true record]
  | .error _ => []

/-- The records of rows, up to the first row that cannot be read. -/
def shownRows (statement : Statement) (whole : Bool) : List Row → List Sight
  | [] => []
  | row :: rest =>
    match statement.decode row with
    | .ok record => .shown whole record :: shownRows statement whole rest
    | .error _ => []

/-- What a search for records shows; a count shows none. -/
def selectSights (target : Target) (filter : Json) (traits : Traits) (s : Session) : List Sight :=
  match (Query.ofTraits? target filter traits).mapError .compile >>= Query.statement? with
  | .ok statement =>
    followed (query .search statement.sql statement.params) (fun rows _ =>
      if statement.count then [] else shownRows statement traits.fields.isWhole rows) s
  | .error _ => []

def lookupSights (kind : Kind) (key text : String) (s : Session) : List Sight :=
  selectSights (s.targetOf kind Schema.empty) (.object [(key, .string text)]) single s

/-- What the lookup of a type shows, unless the type is known. -/
def typeSights (name : String) (s : Session) : List Sight :=
  match s.types.lookup name with
  | some _ => []
  | none => lookupSights .type "$name" name s

/-- What a search shows: the type that it is about, then the records. -/
def searchSights (typeName : Option String) (kind : Kind) (filter : Json) (traits : Traits) (s : Session) :
    List Sight :=
  match typeName with
  | some name => typeSights name s ++
      followed (typeSchema name) (fun schema next => selectSights (next.targetOf kind schema) filter traits next) s
  | none => selectSights (s.targetOf kind Schema.empty) filter traits s

/-- What an update shows: the record as it was, then the record as it is, if any column is different. -/
def updateSights (kind : Kind) (id : String) (changes : Members) (s : Session) : List Sight :=
  lookupSights kind "$id" id s ++ followed (find kind id) (fun found next =>
    match found with
    | some (.object current) =>
      let before := kind.partition current
      let after := kind.partition (overlay current changes)
      if (changedColumns kind before after).isEmpty then [] else told ((writeChanges kind id before after).run next).1
    | _ => []) s

/-- What a request shows of entities. -/
def requestSights (s : Session) : Request → List Sight
  | .create kind record => told ((create kind record).run s).1
  | .createDocument typeName content => told ((createDocument typeName content).run s).1
  | .createType name schema metadata => told ((createType name schema metadata).run s).1
  | .read kind id => lookupSights kind "$id" id s
  | .search kind filter traits =>
    searchSights (Request.search kind filter traits).wantedType kind filter traits s
  | .searchDocuments name filter traits => searchSights (some name) .document (typedFilter name filter) traits s
  | .count kind filter => searchSights (Request.count kind filter).wantedType kind filter Traits.counting s
  | .update kind (.object changes) =>
    match (Members.get? changes identityName).bind Json.string? with
    | some id => updateSights kind id changes s
    | none => []
  | .delete kind id => if ((delete kind id).run s).1.isOk then [.deleted id] else []
  | .getType name => typeSights name s
  | _ => []

def sights (s : Session) : Step → List Sight
  | .request request => s.requestSights request
  | .overlap _ _ | .circumstance _ => []

/-- Work that sees just this of entities. -/
def Sees (sights : Session → List Sight) (w : Work α) : Prop :=
  ∀ s, (w.run s).2.entities = (sights s).foldl Sight.note s.entities

/-- Work that sees nothing of entities. -/
abbrev Unseeing (w : Work α) : Prop := Sees (fun _ => []) w

/-- Work that sees the record that it gives, and nothing else. -/
abbrev Tells (w : Work Json) : Prop := Sees (fun s => told (w.run s).1) w

/-! ### Work that sees nothing -/

namespace Unseeing

theorem pure (a : α) : Unseeing (pure a : Work α) := fun _ => rfl

theorem throw (fault : Fault) : Unseeing (throw fault : Work α) := fun _ => rfl

theorem attempt (result : Except Fault α) : Unseeing (attempt result) := fun _ => rfl

theorem get : Unseeing (get : Work Session) := fun _ => rfl

theorem query (operation : Operation) (sql : String) (params : List Json) : Unseeing (query operation sql params) :=
  entities_query operation sql params

theorem push (value : Json) : Unseeing (push value) := fun _ => rfl

/-- Results are pushed at the end of an operation. -/
theorem pushed (value : Json) (a : α) : Unseeing (Session.push value >>= fun _ => Pure.pure a) := fun _ => rfl

end Unseeing

/-! ### Work in parts -/

namespace Sees

variable {sights : Session → List Sight} {more : α → Session → List Sight} {w : Work α} {f : α → Work β}

theorem bind (hw : Sees sights w) (hf : ∀ a, Sees (more a) (f a)) :
    Sees (fun s => sights s ++ followed w more s) (w >>= f) := by
  intro s
  have hs := hw s
  dsimp only
  rw [run_bind, List.foldl_append, followed]
  rcases hrun : w.run s with ⟨result, next⟩
  rw [hrun] at hs
  cases result with
  | error fault => exact hs
  | ok a => exact hs ▸ hf a next

/-- What follows sees nothing. -/
theorem last (hw : Sees sights w) (hf : ∀ a, Unseeing (f a)) : Sees sights (w >>= f) := by
  intro s
  have hs := hw s
  rw [run_bind]
  rcases hrun : w.run s with ⟨result, next⟩
  rw [hrun] at hs
  cases result with
  | error fault => exact hs
  | ok a => exact (hf a next).trans hs

/-- What comes first sees nothing. -/
theorem first (hw : Unseeing w) (hf : ∀ a, Sees (more a) (f a)) : Sees (followed w more) (w >>= f) := hw.bind hf

end Sees

/-- What comes first sees nothing, and the rest tells what it sees. -/
theorem Tells.bind {w : Work α} {f : α → Work Json} (hw : Unseeing w) (hf : ∀ a, Tells (f a)) : Tells (w >>= f) := by
  intro s
  have hs := hw s
  dsimp only
  rw [run_bind]
  rcases hrun : w.run s with ⟨result, next⟩
  rw [hrun] at hs
  cases result with
  | error fault => exact hs
  | ok a => exact (hf a next).trans (by rw [hs]; rfl)

/-- A change of something else may follow. -/
theorem Tells.aside {w : Work Json} {g : Json → Session → Session} (hw : Tells w)
    (hg : ∀ a s, (g a s).entities = s.entities) : Tells (w >>= fun a => change (g a) >>= fun _ => pure a) := by
  intro s
  have hs := hw s
  dsimp only at hs ⊢
  rw [run_bind]
  rcases hrun : w.run s with ⟨result, next⟩
  rw [hrun] at hs
  cases result with
  | error fault => exact hs
  | ok a => exact (hg a next).trans hs

/-! ### Records -/

theorem run_remember (record : Json) (s : Session) :
    (remember record).run s = (.ok (), ((remember record).run s).2) := by
  unfold remember
  split <;> rfl

theorem sees_remember (whole : Bool) (record : Json) : Sees (fun _ => [.shown whole record]) (remember record) := by
  intro s
  have hrecord : (Sight.shown whole record).record? = some record := rfl
  have hidentity : (Sight.shown whole record).identity? = (record.get? identityName).bind Json.string? := rfl
  rw [List.foldl_cons, List.foldl_nil]
  unfold remember Sight.note
  rw [hrecord, hidentity]
  cases (record.get? identityName).bind Json.string? <;> rfl

/-- A record is told once it is kept. -/
theorem tells_remember (record : Json) :
    Tells (remember record >>= fun _ => push record >>= fun _ => pure record) := by
  intro s
  have hrun : (remember record >>= fun _ => push record >>= fun _ => (pure record : Work Json)).run s =
      (.ok record, ((push record).run ((remember record).run s).2).2) := by
    rw [run_bind, run_remember]
    rfl
  dsimp only
  rw [hrun]
  exact sees_remember true record s

theorem collect_cons (statement : Statement) (row : Row) (rest : List Row) : collect statement (row :: rest) =
    attempt (statement.decode row) >>= fun record =>
      (if statement.count then pure () else remember record) >>= fun _ =>
        collect statement rest >>= fun records => pure (record :: records) := by
  unfold collect
  rw [List.mapM_cons, bind_assoc]
  congr 1
  funext record
  cases statement.count
  · exact bind_assoc ..
  · rfl

theorem sees_collect (statement : Statement) (whole : Bool) (rows : List Row) :
    Sees (fun _ => if statement.count then [] else shownRows statement whole rows) (collect statement rows) := by
  induction rows with
  | nil =>
      intro s
      cases statement.count <;> rfl
  | cons row rest ih =>
      intro s
      have hrest : ∀ record, Sees (fun _ => if statement.count then [] else shownRows statement whole rest)
          (collect statement rest >>= fun records => pure (record :: records)) := fun record => ih.last fun _ => .pure _
      rw [collect_cons, run_bind, run_attempt, shownRows]
      cases statement.decode row with
      | error fault => cases statement.count <;> rfl
      | ok record =>
          cases hcount : statement.count with
          | true =>
              rw [hcount] at hrest
              exact hrest record s
          | false =>
              rw [hcount] at hrest
              refine ((sees_remember whole record).bind (fun _ => hrest record) s).trans ?_
              dsimp only
              rw [followed_of_ok (run_remember record s)]
              rfl

/-- What a whole search gives is what it shows. -/
theorem shownRows_of_collect {statement : Statement} (whole : Bool) {rows : List Row}
    {s : Session} {records : List Json} (h : ((collect statement rows).run s).1 = .ok records) :
    shownRows statement whole rows = records.map (.shown whole) := by
  induction rows generalizing s records with
  | nil =>
      cases h
      rfl
  | cons row rest ih =>
      rw [collect_cons] at h
      obtain ⟨record, hrecord, hrun⟩ := run_bind_ok h
      rw [hrun] at h
      obtain ⟨_, -, hrun⟩ := run_bind_ok h
      rw [hrun] at h
      obtain ⟨others, hothers, hrun⟩ := run_bind_ok h
      rw [hrun] at h
      cases h
      have hdecode : statement.decode row = .ok record := hrecord
      rw [shownRows, hdecode, ih hothers]
      rfl

/-! ### Operations -/

theorem sees_select (target : Target) (filter : Json) (traits : Traits) :
    Sees (selectSights target filter traits) (select target filter traits) := by
  intro s
  unfold select selectSights
  rw [run_bind, run_attempt]
  cases (Query.ofTraits? target filter traits).mapError Fault.compile with
  | error fault => rfl
  | ok built =>
      dsimp only
      rw [run_bind, run_attempt]
      have hbuilt : ((.ok built : Except Fault Query) >>= Query.statement?) = built.statement? := rfl
      rw [hbuilt]
      cases built.statement? with
      | error fault => rfl
      | ok statement => exact Sees.first (.query _ _ _) (fun rows => sees_collect statement _ rows) s

theorem sees_lookup (kind : Kind) (key text : String) : Sees (lookupSights kind key text) (lookup kind key text) := by
  intro s
  exact ((sees_select _ _ _).last fun _ => .pure _) s

theorem sees_lookupType (name : String) : Sees (typeSights name) (lookupType name) := by
  intro s
  have hlooked := sees_lookup .type "$name" name s
  rw [run_lookupType_eq, typeSights]
  cases s.types.lookup name with
  | some found => rfl
  | none =>
      dsimp only
      rw [← hlooked]
      rcases (lookup .type "$name" name).run s with ⟨result, next⟩
      cases result <;> rfl

theorem sees_typeSchema (name : String) : Sees (typeSights name) (typeSchema name) :=
  (sees_lookupType name).last fun _ => .pure _

theorem sees_selectResult (kind : Kind) (schema : Schema) (filter : Json) (traits : Traits) :
    Sees (fun s => selectSights (s.targetOf kind schema) filter traits s) (selectResult kind schema filter traits) := by
  intro s
  exact ((sees_select _ _ _).last fun _ => .pushed _ _) s

theorem sees_search (kind : Kind) (filter : Json) (traits : Traits) :
    Sees (searchSights (Request.search kind filter traits).wantedType kind filter traits)
      (search kind filter traits) := by
  have hplain : Sees (searchSights none kind filter traits)
      (pure Schema.empty >>= fun schema => selectResult kind schema filter traits) := sees_selectResult _ _ _ _
  unfold search
  rw [Request.wantedType]
  cases kind with
  | document =>
      rw [if_pos rfl]
      cases typeFilter filter with
      | none => exact hplain
      | some name => exact (sees_typeSchema name).bind fun _ => sees_selectResult _ _ _ _
  | _ => exact hplain

theorem sees_searchDocuments (name : String) (filter : Json) (traits : Traits) :
    Sees (searchSights (some name) .document (typedFilter name filter) traits) (searchDocuments name filter traits) :=
  (sees_typeSchema name).bind fun _ => sees_selectResult _ _ _ _

theorem tells_create (kind : Kind) (record : Json) : Tells (create kind record) :=
  .bind (.attempt _) fun _ => .bind .get fun _ => .bind (.query _ _ _) fun _ => .bind (.attempt _) fun _ =>
    tells_remember _

theorem tells_createDocument (typeName : String) (content : Json) : Tells (createDocument typeName content) := by
  refine .bind (.attempt _) fun record => ?_
  dsimp only
  split
  · exact tells_create _ _
  · exact .bind (fun _ => rfl) fun _ => tells_create _ _

theorem tells_createType (name : String) (schema metadata : Json) : Tells (createType name schema metadata) := by
  have hrest : ∀ record : Members, Tells (do
      let record := Members.insert "schema" schema (Members.insert "name" (.string name) record)
      let created ← create .type (.object record)
      change fun s => { s with types := (name, some created) :: s.types }
      return created) := fun _ => (tells_create _ _).aside fun _ _ => rfl
  unfold createType
  split
  · exact .bind (.pure _) hrest
  · exact .bind (.attempt _) hrest

theorem sees_writeChanges (kind : Kind) (id : String) (before after : Row) :
    Sees (fun s => if (changedColumns kind before after).isEmpty then []
      else told ((writeChanges kind id before after).run s).1) (writeChanges kind id before after) := by
  have hwritten : ∀ assignments, Tells (do
      let statement := modification (← get).settings.dialect kind assignments id
      let rows ← query .update statement.1 statement.2
      let updated := (← attempt (firstRecord kind rows)).getD .null
      remember updated
      push updated
      return updated) := fun _ => .bind .get fun _ => .bind (.query _ _ _) fun _ => .bind (.attempt _) fun _ =>
        tells_remember _
  unfold writeChanges
  cases changedColumns kind before after with
  | nil => exact Unseeing.pushed _ _
  | cons first rest => exact hwritten (first :: rest)

theorem sees_update (kind : Kind) (id : String) {changes : Members}
    (hid : (Members.get? changes identityName).bind Json.string? = some id) :
    Sees (updateSights kind id changes) (update kind (.object changes)) := by
  intro s
  unfold update
  rw [run_bind, run_attempt, asObject]
  dsimp only
  rw [hid]
  refine Sees.bind (sees_lookup kind "$id" id) (fun found => ?_) s
  cases found with
  | none => exact Unseeing.throw _
  | some found =>
      cases found with
      | object current => exact sees_writeChanges kind id _ _
      | _ => exact fun _ => rfl

theorem sees_delete (kind : Kind) (id : String) :
    Sees (fun s => if ((delete kind id).run s).1.isOk then [.deleted id] else []) (delete kind id) := by
  intro s
  have hquery := entities_query .delete (removal kind id).1 (removal kind id).2 s
  unfold delete
  dsimp only
  rw [run_bind]
  rcases hrun : (query .delete (removal kind id).1 (removal kind id).2).run s with ⟨result, next⟩
  rw [hrun] at hquery
  cases result with
  | error fault => exact hquery
  | ok rows => exact congrArg (Members.erase id) hquery

/-! ### Steps and scripts -/

theorem entities_answer (request : Request) (s : Session) :
    ((answerRequest request).run s).2.entities = (s.requestSights request).foldl Sight.note s.entities := by
  have hrest : ∀ {w : Work Reply}, Unseeing w → (w.run s).2.entities = [].foldl Sight.note s.entities := fun hw => hw s
  have hfetched : ∀ {request : Request} {shown : Json → Option Json}, request.shows = some shown →
      ((answerRequest request).run s).2.entities = s.entities := by
    intro request shown hshows
    rcases run_shown hshows s with htaken | ⟨-, -, hkept⟩
    · rw [htaken]
    · rw [hkept]
  cases request with
  | create kind record => exact ((tells_create kind record).last fun _ => .pure _) s
  | createDocument typeName content => exact ((tells_createDocument typeName content).last fun _ => .pure _) s
  | createType name schema metadata => exact ((tells_createType name schema metadata).last fun _ => .pure _) s
  | read kind id => exact (((sees_lookup kind "$id" id).last fun _ => .pushed _ _).last fun _ => .pure _) s
  | search kind filter traits => exact ((sees_search kind filter traits).last fun _ => .pure _) s
  | searchDocuments name filter traits => exact ((sees_searchDocuments name filter traits).last fun _ => .pure _) s
  | count kind filter =>
      exact (((sees_search kind filter Traits.counting).last fun _ => .pure _).last fun _ => .pure _) s
  | delete kind id => exact ((sees_delete kind id).last fun _ => .pure _) s
  | getType name => exact (((sees_lookupType name).last fun _ => .pushed _ _).last fun _ => .pure _) s
  | update kind record =>
      cases record with
      | object changes =>
          rw [requestSights]
          cases hid : (Members.get? changes identityName).bind Json.string? with
          | some id => exact ((sees_update kind id hid).last fun _ => .pure _) s
          | none =>
              refine hrest (Sees.last (fun s => ?_) fun _ => .pure _)
              unfold update
              rw [run_bind, run_attempt, asObject]
              dsimp only
              rw [hid]
              rfl
      | _ => exact hrest fun _ => rfl
  | execute sql params => exact hrest (((Unseeing.query _ _ _).last fun _ => .pushed _ _).last fun _ => .pure _)
  | subscribe event => exact hrest (Sees.last (overlooks_entities.subscribe event) fun _ => .pure _)
  | unsubscribe event => exact hrest (Sees.last (overlooks_entities.unsubscribe event) fun _ => .pure _)
  | subscriptions event =>
      exact hrest (((Unseeing.attempt _).last fun _ => Unseeing.get.last fun _ => .pure _).last fun _ => .pure _)
  | finish ending => exact hrest (Sees.last (overlooks_entities.finish ending) fun _ => .pure _)
  | fetch | fetchSingle | fetchFirst => exact hfetched rfl

theorem entities_happen (circumstance : Circumstance) (s : Session) :
    (s.happen circumstance).entities = s.entities := by
  cases circumstance with
  | sleep duration => exact overlooks_entities.elapse _ _ s
  | announce notification =>
      unfold happen
      dsimp only
      split
      · obtain ⟨notices, hdeliver⟩ := exists_deliver [notification] s
        rw [hdeliver]
      · rfl
  | _ => rfl

theorem entities_step (next : Step) (s : Session) :
    (s.step next).2.entities = (s.sights next).foldl Sight.note s.entities := by
  cases next with
  | request request => exact (overlooks_entities.watch _).trans (entities_answer request s)
  | overlap first second =>
      have hfinish := overlooks_entities.finish first s
      rw [← finishTwice_snd first second] at hfinish
      exact (overlooks_entities.watch _).trans hfinish
  | circumstance circumstance => exact (overlooks_entities.watch _).trans (entities_happen circumstance s)

/-- What the steps of a script show of entities, in order. -/
def sightsAlong : List Step → Session → List Sight
  | [], _ => []
  | next :: script, s => s.sights next ++ sightsAlong script (s.step next).2

theorem entities_after (script : List Step) (s : Session) :
    (s.after script).entities = (sightsAlong script s).foldl Sight.note s.entities := by
  induction script generalizing s with
  | nil => rfl
  | cons next script ih => exact (ih _).trans (by rw [entities_step, sightsAlong, List.foldl_append])

/-! ### Whole records -/

theorem exists_of_mem_shownRows {statement : Statement} {whole : Bool} {rows : List Row} {sight : Sight}
    (h : sight ∈ shownRows statement whole rows) : ∃ record, sight = .shown whole record := by
  induction rows with
  | nil => cases h
  | cons row rest ih =>
      rw [shownRows] at h
      split at h
      · rename_i record _
        rcases List.mem_cons.mp h with hfirst | hrest
        · exact ⟨record, hfirst⟩
        · exact ih hrest
      · cases h

theorem exists_of_mem_selectSights {target : Target} {filter : Json} {traits : Traits} {s : Session} {sight : Sight}
    (h : sight ∈ selectSights target filter traits s) : ∃ record, sight = .shown traits.fields.isWhole record := by
  unfold selectSights at h
  split at h
  · obtain ⟨rows, next, -, h⟩ := exists_of_mem_followed h
    split at h
    · cases h
    · exact exists_of_mem_shownRows h
  · cases h

theorem exists_of_mem_told {result : Except Fault Json} {sight : Sight} (h : sight ∈ told result) :
    ∃ record, sight = .shown true record := by
  cases result with
  | error fault => cases h
  | ok record => exact ⟨record, List.mem_singleton.mp h⟩

theorem exists_of_mem_typeSights {name : String} {s : Session} {sight : Sight} (h : sight ∈ typeSights name s) :
    ∃ record, sight = .shown true record := by
  unfold typeSights at h
  split at h
  · cases h
  · exact exists_of_mem_selectSights h

theorem exists_of_mem_searchSights {typeName : Option String} {kind : Kind} {filter : Json} {traits : Traits}
    {s : Session} {sight : Sight} (h : sight ∈ searchSights typeName kind filter traits s) :
    ∃ whole record, sight = .shown whole record ∧ (whole = false → traits.fields.isWhole = false) := by
  have hselected : ∀ {target next}, sight ∈ selectSights target filter traits next →
      ∃ whole record, sight = .shown whole record ∧ (whole = false → traits.fields.isWhole = false) := by
    intro target next h
    obtain ⟨record, hsight⟩ := exists_of_mem_selectSights h
    exact ⟨_, record, hsight, id⟩
  cases typeName with
  | none => exact hselected h
  | some name =>
      rcases List.mem_append.mp h with htype | hrecords
      · obtain ⟨record, hsight⟩ := exists_of_mem_typeSights htype
        exact ⟨true, record, hsight, fun hwhole => by cases hwhole⟩
      · obtain ⟨schema, next, -, hrecords⟩ := exists_of_mem_followed hrecords
        exact hselected hrecords

theorem exists_of_mem_updateSights {kind : Kind} {id : String} {changes : Members} {s : Session} {sight : Sight}
    (h : sight ∈ updateSights kind id changes s) : ∃ record, sight = .shown true record := by
  rcases List.mem_append.mp h with hfound | hwritten
  · exact exists_of_mem_selectSights hfound
  · obtain ⟨found, next, -, hwritten⟩ := exists_of_mem_followed hwritten
    dsimp only at hwritten
    split at hwritten
    · split at hwritten
      · cases hwritten
      · exact exists_of_mem_told hwritten
    · cases hwritten

/-- What a request shows: records, whole unless it asks for some of their fields, or the deletion that it is. -/
theorem exists_of_mem_requestSights {s : Session} {request : Request} {sight : Sight}
    (h : sight ∈ s.requestSights request) :
    (∃ whole record, sight = .shown whole record ∧ (whole = false → request.isPartial = true)) ∨
      ∃ kind id, sight = .deleted id ∧ request = .delete kind id := by
  have hwhole : (∃ record, sight = .shown true record) →
      ∃ whole record, sight = .shown whole record ∧ (whole = false → request.isPartial = true) :=
    fun ⟨record, hsight⟩ => ⟨true, record, hsight, fun hfalse => by cases hfalse⟩
  cases request with
  | create | createDocument | createType => exact .inl (hwhole (exists_of_mem_told h))
  | read => exact .inl (hwhole (exists_of_mem_selectSights h))
  | getType => exact .inl (hwhole (exists_of_mem_typeSights h))
  | search kind filter traits | searchDocuments name filter traits =>
      rw [requestSights] at h
      obtain ⟨whole, record, hsight, hpartial⟩ := exists_of_mem_searchSights h
      exact .inl ⟨whole, record, hsight, fun hfalse => by rw [Request.isPartial, hpartial hfalse]; rfl⟩
  | count kind filter =>
      obtain ⟨whole, record, hsight, hpartial⟩ := exists_of_mem_searchSights h
      exact .inl ⟨whole, record, hsight, fun hfalse => by cases hpartial hfalse⟩
  | update kind record =>
      cases record with
      | object changes =>
          rw [requestSights] at h
          split at h
          · exact .inl (hwhole (exists_of_mem_updateSights h))
          · cases h
      | _ => cases h
  | delete kind id =>
      rw [requestSights] at h
      split at h
      · exact .inr ⟨kind, id, List.mem_singleton.mp h, rfl⟩
      · cases h
  | _ => cases h

/-- The whole records that a request obtains when it is answered. An update that finds nothing to write obtains the
record as it is. -/
inductive Obtains (s : Session) : Request → Json → Prop
  | create {kind : Kind} {record created : Json} :
      ((create kind record).run s).1 = .ok created → Obtains s (.create kind record) created
  | createDocument {typeName : String} {content created : Json} :
      ((createDocument typeName content).run s).1 = .ok created → Obtains s (.createDocument typeName content) created
  | createType {name : String} {schema metadata created : Json} :
      ((createType name schema metadata).run s).1 = .ok created → Obtains s (.createType name schema metadata) created
  | read {kind : Kind} {id : String} {found : Json} :
      ((read kind id).run s).1 = .ok (some found) → Obtains s (.read kind id) found
  | search {kind : Kind} {filter : Json} {traits : Traits} {records : List Json} {record : Json} :
      traits.fields = .all → traits.count = false → ((search kind filter traits).run s).1 = .ok (.array records) →
        record ∈ records → Obtains s (.search kind filter traits) record
  | searchDocuments {name : String} {filter : Json} {traits : Traits} {records : List Json} {record : Json} :
      traits.fields = .all → traits.count = false →
        ((searchDocuments name filter traits).run s).1 = .ok (.array records) → record ∈ records →
        Obtains s (.searchDocuments name filter traits) record
  | update {kind : Kind} {id : String} {changes current : Members} {updated : Json} :
      (Members.get? changes identityName).bind Json.string? = some id →
        ((find kind id).run s).1 = .ok (some (.object current)) →
        ((update kind (.object changes)).run s).1 = .ok updated →
        Obtains s (.update kind (.object changes))
          (if (changedColumns kind (kind.partition current) (kind.partition (overlay current changes))).isEmpty
            then .object current else updated)

/-- A statement is for a count if the traits ask for one. -/
theorem count_of_statement? {target : Target} {filter : Json} {traits : Traits} {built : Query} {statement : Statement}
    (hbuilt : Query.ofTraits? target filter traits = .ok built) (hstatement : built.statement? = .ok statement) :
    statement.count = traits.count := by
  unfold Query.ofTraits? at hbuilt
  obtain ⟨selection, -, hbuilt⟩ := bind_eq_ok_iff.mp hbuilt
  obtain ⟨own, -, hbuilt⟩ := bind_eq_ok_iff.mp hbuilt
  obtain ⟨grouped, -, hbuilt⟩ := bind_eq_ok_iff.mp hbuilt
  obtain ⟨ordered, -, hbuilt⟩ := bind_eq_ok_iff.mp hbuilt
  have hcount : built.count = traits.count := congrArg Query.count (Except.ok.inj hbuilt).symm
  unfold Query.statement? at hstatement
  dsimp only at hstatement
  split at hstatement
  · cases hstatement
  · split at hstatement
    · cases hstatement
    · obtain rfl := Except.ok.inj hstatement
      exact hcount

/-- What a search for records gives is what it shows. -/
theorem selectSights_eq {target : Target} {filter : Json} {traits : Traits} {s : Session} {records : List Json}
    (hcount : traits.count = false) (h : ((select target filter traits).run s).1 = .ok records) :
    selectSights target filter traits s = records.map (.shown traits.fields.isWhole) := by
  unfold select at h
  unfold selectSights
  rw [run_bind, run_attempt] at h
  cases hbuilt : Query.ofTraits? target filter traits with
  | error fault =>
      rw [hbuilt] at h
      cases h
  | ok built =>
      rw [hbuilt] at h
      dsimp only [Except.mapError] at h ⊢
      rw [run_bind, run_attempt] at h
      have hcomposed : ((.ok built : Except Fault Query) >>= Query.statement?) = built.statement? := rfl
      rw [hcomposed]
      cases hstatement : built.statement? with
      | error fault =>
          rw [hstatement] at h
          cases h
      | ok statement =>
          rw [hstatement] at h
          dsimp only at h ⊢
          obtain ⟨rows, hrows, hrun⟩ := run_bind_ok h
          rw [hrun] at h
          rw [followed_of_ok (Prod.ext hrows rfl), (count_of_statement? hbuilt hstatement).trans hcount]
          exact shownRows_of_collect _ h

theorem mem_lookupSights_of_find {kind : Kind} {id : String} {s : Session} {found : Json}
    (h : ((find kind id).run s).1 = .ok (some found)) : .shown true found ∈ lookupSights kind "$id" id s := by
  unfold find lookup at h
  rw [run_bind, run_get] at h
  dsimp only at h
  obtain ⟨records, hrecords, hrun⟩ := run_bind_ok h
  rw [hrun] at h
  have hhead : records.head? = some found := Except.ok.inj h
  rw [lookupSights, selectSights_eq rfl hrecords]
  exact List.mem_map_of_mem (List.mem_of_head? hhead)

theorem selectSights_of_selectResult {kind : Kind} {schema : Schema} {filter : Json} {traits : Traits} {s : Session}
    {records : List Json} (hcount : traits.count = false)
    (h : ((selectResult kind schema filter traits).run s).1 = .ok (.array records)) :
    selectSights (s.targetOf kind schema) filter traits s = records.map (.shown traits.fields.isWhole) := by
  unfold selectResult at h
  rw [run_bind, run_get] at h
  dsimp only at h
  obtain ⟨found, hfound, hrun⟩ := run_bind_ok h
  rw [hrun, hcount] at h
  have hresult : Json.array found = .array records := Except.ok.inj h
  cases hresult
  exact selectSights_eq hcount hfound

theorem mem_searchSights {kind : Kind} {filter : Json} {traits : Traits} {name : String} {s : Session}
    {records : List Json} {record : Json} (hfields : traits.fields = .all) (hcount : traits.count = false)
    (h : ((typeSchema name >>= fun schema => selectResult kind schema filter traits).run s).1 = .ok (.array records))
    (hrecord : record ∈ records) : .shown true record ∈ searchSights (some name) kind filter traits s := by
  obtain ⟨schema, hschema, hrun⟩ := run_bind_ok h
  rw [hrun] at h
  refine List.mem_append_right _ ?_
  rw [followed_of_ok (Prod.ext hschema rfl), selectSights_of_selectResult hcount h, hfields]
  exact List.mem_map_of_mem hrecord

theorem mem_requestSights_of_search {kind : Kind} {filter : Json} {traits : Traits} {s : Session} {records : List Json}
    {record : Json} (hfields : traits.fields = .all) (hcount : traits.count = false)
    (h : ((search kind filter traits).run s).1 = .ok (.array records)) (hrecord : record ∈ records) :
    .shown true record ∈ s.requestSights (.search kind filter traits) := by
  have hplain : ∀ {kind : Kind}, ((pure Schema.empty >>= fun schema =>
      selectResult kind schema filter traits).run s).1 = .ok (.array records) →
        .shown true record ∈ searchSights none kind filter traits s := by
    intro kind hselected
    unfold searchSights
    rw [selectSights_of_selectResult hcount hselected, hfields]
    exact List.mem_map_of_mem hrecord
  unfold search at h
  rw [requestSights, Request.wantedType]
  cases kind with
  | document =>
      rw [if_pos rfl]
      cases htype : typeFilter filter with
      | none =>
          rw [htype] at h
          exact hplain h
      | some name =>
          rw [htype] at h
          exact mem_searchSights hfields hcount h hrecord
  | _ => exact hplain h

/-- An update shows the record as it is when it has written it, or as it was found if there was nothing to write. -/
theorem mem_updateSights {kind : Kind} {id : String} {changes current : Members} {s : Session} {updated : Json}
    (hid : (Members.get? changes identityName).bind Json.string? = some id)
    (hfound : ((find kind id).run s).1 = .ok (some (.object current)))
    (h : ((update kind (.object changes)).run s).1 = .ok updated) :
    .shown true (if (changedColumns kind (kind.partition current) (kind.partition (overlay current changes))).isEmpty
      then .object current else updated) ∈ updateSights kind id changes s := by
  by_cases hsame : (changedColumns kind (kind.partition current)
      (kind.partition (overlay current changes))).isEmpty = true
  · rw [if_pos hsame]
    exact List.mem_append_left _ (mem_lookupSights_of_find hfound)
  · have hwritten : ((writeChanges kind id (kind.partition current)
        (kind.partition (overlay current changes))).run ((find kind id).run s).2).1 = .ok updated := by
      unfold update at h
      rw [run_bind, run_attempt, asObject] at h
      dsimp only at h
      rw [hid] at h
      obtain ⟨found, hagain, hrun⟩ := run_bind_ok h
      cases hagain.symm.trans hfound
      rw [hrun] at h
      exact h
    rw [if_neg hsame]
    refine List.mem_append_right _ ?_
    rw [followed_of_ok (Prod.ext hfound rfl)]
    dsimp only
    rw [if_neg hsame, hwritten]
    exact List.mem_singleton_self _

/-- What a request obtains, it shows. -/
theorem mem_requestSights_of_obtains {s : Session} {request : Request} {record : Json} (h : s.Obtains request record) :
    .shown true record ∈ s.requestSights request := by
  have htold : ∀ {result : Except Fault Json} {record : Json}, result = .ok record →
      .shown true record ∈ told result := by
    rintro _ record rfl
    exact List.mem_singleton_self _
  cases h with
  | create hcreated => exact htold hcreated
  | createDocument hcreated => exact htold hcreated
  | createType hcreated => exact htold hcreated
  | @read kind id found hread =>
      unfold read at hread
      obtain ⟨found', hfound, hrun⟩ := run_bind_ok hread
      rw [hrun] at hread
      have hsame : found' = some record := Except.ok.inj hread
      exact mem_lookupSights_of_find (hsame ▸ hfound)
  | search hfields hcount hsearched hrecord => exact mem_requestSights_of_search hfields hcount hsearched hrecord
  | searchDocuments hfields hcount hsearched hrecord => exact mem_searchSights hfields hcount hsearched hrecord
  | update hid hfound hupdated =>
      rw [requestSights, hid]
      exact mem_updateSights hid hfound hupdated

/-! ### What is kept -/

theorem entities_start {settings : Settings} {connection : Connection} {attentive : Bool} {s : Session}
    (hstart : start settings connection attentive = .ok s) : s.entities = [] := by
  obtain ⟨begun, hbegun, -⟩ := exists_opened hstart
  change s = _ at hbegun
  rw [hbegun, overlooks_entities.watch]
  rfl

/-- **What is kept of an entity.** After every script a session keeps of an identity the record that it saw last, unless
that was deleted since. So after a whole record, as long as no other is seen whole and none is deleted, it keeps that
record or the last part of one that it saw since, and what it keeps carries all that the whole record does exactly if
that part does. Whatever record a request obtains is seen whole; parts are seen only in searches for some fields, and
only deletions take anything away. -/
theorem kept_after_start {settings : Settings} {connection : Connection} {attentive : Bool} {s : Session}
    (hstart : start settings connection attentive = .ok s) (script : List Step) (id : String) :
    let seen := (sightsAlong script s).filter (·.identity? = some id)
    (s.after script).entities.get? id = seen.getLast?.bind Sight.record? ∧
    (∀ before record later, seen = before ++ .shown true record :: later →
      (∀ sight ∈ later, ∃ part, sight = .shown false part) →
      ∃ kept, (s.after script).entities.get? id = some kept ∧ (later = [] → kept = record) ∧
        (kept.Carries record ↔ ∀ part, later.getLast? = some (.shown false part) → part.Carries record)) ∧
    ∀ (reached : Session) (request : Request),
      (∀ record, reached.Obtains request record → .shown true record ∈ reached.requestSights request) ∧
      ∀ sight ∈ reached.requestSights request,
        (∃ whole record, sight = .shown whole record ∧ (whole = false → request.isPartial = true)) ∨
          ∃ kind id, sight = .deleted id ∧ request = .delete kind id := by
  intro seen
  have hkept : (s.after script).entities.get? id = seen.getLast?.bind Sight.record? := by
    rw [entities_after, entities_start hstart, Sight.get?_foldl_note Members.sorted_nil]
    cases seen.getLast? <;> rfl
  refine ⟨hkept, fun before record later hseen hparts => ?_, fun reached request =>
    ⟨fun record => mem_requestSights_of_obtains, fun sight => exists_of_mem_requestSights⟩⟩
  rw [hkept, hseen]
  rcases List.eq_nil_or_concat later with rfl | ⟨parts, last, rfl⟩
  · refine ⟨record, ?_, fun _ => rfl, fun _ part hpart => ?_, fun _ name value hvalue => hvalue⟩
    · rw [List.getLast?_concat]
      rfl
    · cases hpart
  · rw [List.concat_eq_append] at hparts ⊢
    obtain ⟨part, rfl⟩ := hparts last (List.mem_append_right _ (List.mem_singleton_self last))
    refine ⟨part, ?_, fun hnil => absurd hnil (List.append_ne_nil_of_right_ne_nil _ (List.cons_ne_nil _ _)), ?_⟩
    · rw [← List.cons_append, ← List.append_assoc, List.getLast?_concat]
      rfl
    · rw [List.getLast?_concat]
      refine ⟨fun hcarries other hother => ?_, fun h => h part rfl⟩
      cases hother
      exact hcarries

/-! ### A search for one field -/

/-- A record, and a search that asks for its identity alone. -/
def namedRow : Row := [("id", .string "d1"), ("name", .string "Ada")]

def namedPart : Json := .object [("id", .string "d1")]

/-- A request to create the record, and what is asked of the session and of storage after that. -/
def namedCreation : Request := .create .document (.object namedRow)

def namedSearch : List Step := [.circumstance (.answer (.ok [[("id", .string "d1")]])),
  .request (.search .document .null { Traits.default with fields := .fields [.string "$id"] })]

theorem kept_after_start_part :
    let script : List Step := .circumstance (.answer (.ok [namedRow])) :: .request namedCreation :: namedSearch
    ∃ s, start Settings.default (.ofBackend (.scripted [])) true = .ok s ∧
      (sightsAlong script s).filter (·.identity? = some "d1") =
        [.shown true (.object namedRow), .shown false namedPart] ∧
      ∃ kept, (s.after script).entities.get? "d1" = some kept ∧
        (kept.Carries (.object namedRow) ↔ namedPart.Carries (.object namedRow)) := by
  intro script
  refine ⟨_, rfl, ?_⟩
  generalize hopened : (opened Settings.default _ true).watch = s
  have hstart : start Settings.default (.ofBackend (.scripted [])) true = .ok s := congrArg Except.ok hopened
  have hseen : (sightsAlong script s).filter (·.identity? = some "d1") =
      [] ++ .shown true (.object namedRow) :: [.shown false namedPart] := by
    subst hopened
    cbv
  obtain ⟨-, hlast, -⟩ := kept_after_start hstart script "d1"
  obtain ⟨kept, hkept, -, hcarries⟩ := hlast [] _ _ hseen fun sight hsight => ⟨namedPart, List.mem_singleton.mp hsight⟩
  refine ⟨hseen, kept, hkept, hcarries.trans ⟨fun h => h namedPart rfl, fun h part hpart => ?_⟩⟩
  cases hpart
  exact h

/-- A record is created and not deleted. After a search that asks for its identity alone its name is not kept. -/
theorem part_replaces_whole :
    let before : List Step := [.circumstance (.answer (.ok [namedRow]))]
    ∃ s, start Settings.default (.ofBackend (.scripted [])) true = .ok s ∧
      (s.after before).Obtains namedCreation (.object namedRow) ∧
      (s.after (before ++ [.request namedCreation])).entities.get? "d1" = some (.object namedRow) ∧
      (s.after (before ++ .request namedCreation :: namedSearch)).entities.get? "d1" = some namedPart ∧
      (Json.object namedRow).get? "name" = some (.string "Ada") ∧ namedPart.get? "name" = none ∧
      ¬namedPart.Carries (.object namedRow) := by
  intro before
  refine ⟨_, rfl, .create ?_, ?_, ?_, rfl, rfl, fun h => ?_⟩
  · cbv
  · cbv
  · cbv
  · cases h "name" (.string "Ada") rfl

end Session

end Dossier
