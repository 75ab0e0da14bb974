import Dossier.Proofs.Session.Holdings
import Mathlib

/-!
What a session knows of types. The first lookup of a name and every type created under it by name are kept and told
from then on, so later lookups of the name ask nothing of storage. Records that are written in any other way change
nothing of it. **`known_type_answers`**: after every script a type is answered for by what the session learned of it
last.
-/

namespace Dossier

/-- The type that a request looks up. -/
def Request.wantedType : Request → Option String
  | .getType name | .searchDocuments name _ _ => some name
  | .search kind filter _ | .count kind filter => if kind = .document then Session.typeFilter filter else none
  | _ => none

/-- The name under which a step creates a type. -/
def Step.createdType : Step → Option String
  | .request (.createType name _ _) => some name
  | _ => none

namespace Session

/-- What the lookup of a name tells: nothing, if the name was looked up before or storage cannot say. -/
def looked (s : Session) (name : String) : List (String × Option Json) :=
  match s.types.lookup name, ((lookup .type "$name" name).run s).1 with
  | none, .ok found => [(name, found)]
  | _, _ => []

/-- What the creation of a type under a name tells. -/
def noted (name : String) : Except Fault Json → List (String × Option Json)
  | .ok created => [(name, some created)]
  | .error _ => []

/-- What a step tells the session of types: the record that it created by name, or what it found when it looked. -/
def learned (s : Session) : Step → List (String × Option Json)
  | .request (.createType name schema metadata) => noted name ((createType name schema metadata).run s).1
  | .request request => request.wantedType.elim [] s.looked
  | .overlap _ _ | .circumstance _ => []

/-- What the steps of a script tell the session of types, the latest first. -/
def learnedAlong : List Step → Session → List (String × Option Json)
  | [], _ => []
  | next :: script, s => learnedAlong script (s.step next).2 ++ s.learned next

/-- The schema by which documents of a type are cast, as far as there is one. -/
def schemaOf (found : Option Json) : Schema := ((found.bind (·.get? "schema")).map Schema.mk).getD Schema.empty

/-! ### Work that learns nothing -/

/-- Work that leaves what is known of types as it is. -/
abbrev Unlearned {α : Type} (w : Work α) : Prop := Respects (fun s next => next.types = s.types) w

variable {α β : Type}

theorem Unheld.unlearned {w : Work α} (h : Unheld w) : Unlearned w := fun s => (h s).types

namespace Unlearned

theorem bind {w : Work α} {f : α → Work β} (hw : Unlearned w) (hf : ∀ a, Unlearned (f a)) : Unlearned (w >>= f) :=
  Respects.bind (fun _ _ _ hab hbc => hbc.trans hab) hw hf

theorem pure (a : α) : Unlearned (pure a : Work α) := fun _ => rfl

/-- Results are pushed at the end of an operation. -/
theorem push (value : Json) (a : α) : Unlearned (Session.push value >>= fun _ => Pure.pure a) := fun _ => rfl

theorem selectResult (kind : Kind) (schema : Schema) (filter : Json) (traits : Traits) :
    Unlearned (selectResult kind schema filter traits) :=
  .bind Unheld.get.unlearned fun _ => .bind (Unheld.select _ _ _).unlearned fun _ => .push _ _

theorem create (kind : Kind) (record : Json) : Unlearned (create kind record) :=
  .bind (Unheld.attempt _).unlearned fun _ => .bind Unheld.get.unlearned fun _ =>
    .bind (Unheld.query _ _ _).unlearned fun _ => .bind (Unheld.attempt _).unlearned fun _ =>
      .bind (Unheld.remember _).unlearned fun _ => .push _ _

theorem createDocument (typeName : String) (content : Json) : Unlearned (createDocument typeName content) := by
  refine .bind (Unheld.attempt _).unlearned fun record => ?_
  dsimp only
  split
  · exact .create _ _
  · exact .bind (fun _ => rfl) fun _ => .create _ _

theorem writeChanges (kind : Kind) (id : String) (before after : Row) :
    Unlearned (writeChanges kind id before after) := by
  unfold Session.writeChanges
  split
  · exact .push _ _
  · exact .bind Unheld.get.unlearned fun _ => .bind (Unheld.query _ _ _).unlearned fun _ =>
      .bind (Unheld.attempt _).unlearned fun _ => .bind (Unheld.remember _).unlearned fun _ => .push _ _

theorem update (kind : Kind) (record : Json) : Unlearned (update kind record) := by
  refine .bind (Unheld.attempt _).unlearned fun changes => ?_
  split
  · exact (Unheld.throw _).unlearned
  · refine .bind (Unheld.lookup _ _ _).unlearned fun found => ?_
    split
    · exact (Unheld.throw _).unlearned
    · exact .bind (Unheld.attempt _).unlearned fun _ => .writeChanges _ _ _ _

theorem delete (kind : Kind) (id : String) : Unlearned (delete kind id) :=
  .bind (Unheld.query _ _ _).unlearned fun _ => .bind (fun _ => rfl) fun _ => .push _ _

theorem fetch : Unlearned fetch := by
  refine .bind Unheld.get.unlearned fun s => ?_
  split <;> exact fun _ => rfl

theorem fetchSingle : Unlearned fetchSingle := by
  refine .bind Unheld.get.unlearned fun s => ?_
  have hrest : Unlearned (do return (← Session.fetch).bind onlyRecord) := .bind .fetch fun _ => .pure _
  dsimp only
  split
  · exact .bind (Unheld.throw _).unlearned fun _ => hrest
  · exact hrest

end Unlearned

/-! ### Lookups -/

/-- A known type is told, and an unknown one is looked up in storage and known from then on. -/
theorem run_lookupType_eq (name : String) (s : Session) : (lookupType name).run s =
    match s.types.lookup name with
    | some found => (.ok found, s)
    | none => match (lookup .type "$name" name).run s with
      | (.ok found, next) => (.ok found, { next with types := (name, found) :: next.types })
      | (.error fault, next) => (.error fault, next) := by
  unfold lookupType
  rw [run_bind, run_get]
  dsimp only
  cases s.types.lookup name with
  | some found => rfl
  | none =>
      dsimp only
      rw [run_bind]
      rcases (lookup .type "$name" name).run s with ⟨result, next⟩
      cases result <;> rfl

/-- Work that begins with the lookup of a name and learns nothing after it. -/
theorem types_lookupType_bind (name : String) {f : Option Json → Work α} (hf : ∀ found, Unlearned (f found))
    (s : Session) : ((lookupType name >>= f).run s).2.types = s.looked name ++ s.types := by
  have hkept := (Unheld.lookup .type "$name" name).unlearned s
  unfold looked
  rw [run_bind, run_lookupType_eq]
  cases s.types.lookup name with
  | some found => exact hf found s
  | none =>
      rcases hrun : (lookup .type "$name" name).run s with ⟨result, next⟩
      rw [hrun] at hkept
      cases result with
      | error fault => exact hkept
      | ok found => exact (hf found _).trans (congrArg ((name, found) :: ·) hkept)

theorem types_typeSchema_bind (name : String) {f : Schema → Work α} (hf : ∀ schema, Unlearned (f schema))
    (s : Session) : ((typeSchema name >>= f).run s).2.types = s.looked name ++ s.types := by
  rw [typeSchema, bind_assoc]
  exact types_lookupType_bind name (fun found => .bind (.pure _) hf) s

theorem types_search (kind : Kind) (filter : Json) (traits : Traits) (s : Session) :
    ((search kind filter traits).run s).2.types =
      (Request.search kind filter traits).wantedType.elim [] s.looked ++ s.types := by
  have hplain : Unlearned (pure Schema.empty >>= fun schema => selectResult kind schema filter traits) :=
    .bind (.pure _) fun _ => .selectResult _ _ _ _
  unfold search
  rw [Request.wantedType]
  cases kind with
  | document =>
      rw [if_pos rfl]
      cases typeFilter filter with
      | none => exact hplain s
      | some name => exact types_typeSchema_bind name (fun _ => .selectResult _ _ _ _) s
  | _ => exact hplain s

/-- Work whose last part is to note the record that it gave for a type. -/
def Notes (name : String) (w : Work Json) : Prop :=
  ∀ s, (w.run s).2.types = noted name (w.run s).1 ++ s.types

theorem notes_bind {name : String} {w : Work α} {f : α → Work Json} (hw : Unlearned w) (hf : ∀ a, Notes name (f a)) :
    Notes name (w >>= f) := by
  intro s
  have hkept := hw s
  rw [run_bind]
  rcases hrun : w.run s with ⟨result, next⟩
  rw [hrun] at hkept
  cases result with
  | error fault => exact hkept
  | ok a => exact hkept ▸ hf a next

theorem notes_createType (name : String) (schema metadata : Json) : Notes name (createType name schema metadata) := by
  have hrest : ∀ record : Members, Notes name (do
      let record := Members.insert "schema" schema (Members.insert "name" (.string name) record)
      let created ← create .type (.object record)
      change fun s => { s with types := (name, some created) :: s.types }
      return created) := fun _ => notes_bind (.create _ _) fun _ _ => rfl
  unfold createType
  split
  · exact notes_bind (.pure _) hrest
  · exact notes_bind (Unheld.attempt _).unlearned hrest

/-! ### Steps and scripts -/

theorem types_step (next : Step) (s : Session) : (s.step next).2.types = s.learned next ++ s.types := by
  cases next with
  | overlap first second =>
      have hfinish := ((Unheld.finish first s).trans (sameHoldings_watch _)).types
      rwa [← finishTwice_snd first second] at hfinish
  | circumstance circumstance => exact ((sameHoldings_happen circumstance s).trans (sameHoldings_watch _)).types
  | request request =>
      have hanswer : (s.step (.request request)).2.types = ((answerRequest request).run s).2.types :=
        (sameHoldings_watch _).types
      rw [hanswer]
      have hrest : ∀ {w : Work Reply}, Unlearned w → (w.run s).2.types = [] ++ s.types := fun hw => hw s
      cases request with
      | createType name schema metadata =>
          rw [answerRequest, run_bind_pure, notes_createType name schema metadata s]
          rfl
      | getType name =>
          rw [answerRequest, run_bind_pure]
          exact types_lookupType_bind name (fun _ => .push _ _) s
      | search kind filter traits =>
          rw [answerRequest, run_bind_pure, types_search]
          rfl
      | count kind filter =>
          rw [answerRequest, run_bind_pure, Session.count, run_bind_pure, types_search]
          rfl
      | searchDocuments name filter traits =>
          rw [answerRequest, run_bind_pure]
          exact types_typeSchema_bind name (fun _ => .selectResult _ _ _ _) s
      | execute sql params =>
          exact hrest (.bind (.bind (Unheld.query _ _ _).unlearned fun _ => .push _ _) fun _ => .pure _)
      | create kind record => exact hrest (.bind (.create _ _) fun _ => .pure _)
      | createDocument typeName content => exact hrest (.bind (.createDocument _ _) fun _ => .pure _)
      | read kind id => exact hrest (.bind (.bind (Unheld.lookup _ _ _).unlearned fun _ => .push _ _) fun _ => .pure _)
      | update kind record => exact hrest (.bind (.update _ _) fun _ => .pure _)
      | delete kind id => exact hrest (.bind (.delete _ _) fun _ => .pure _)
      | subscribe event => exact hrest (.bind (Unheld.subscribe _).unlearned fun _ => .pure _)
      | unsubscribe event => exact hrest (.bind (Unheld.unsubscribe _).unlearned fun _ => .pure _)
      | subscriptions event =>
          exact hrest (.bind (.bind (Unheld.attempt _).unlearned fun _ => .bind Unheld.get.unlearned fun _ => .pure _)
            fun _ => .pure _)
      | finish ending => exact hrest (.bind (Unheld.finish _).unlearned fun _ => .pure _)
      | fetch => exact hrest (.bind .fetch fun _ => .pure _)
      | fetchSingle => exact hrest (.bind .fetchSingle fun _ => .pure _)
      | fetchFirst => exact hrest (.bind (.bind .fetch fun _ => .pure _) fun _ => .pure _)

/-- What a session knows of types after a script is what it learned along the way and what it knew before. -/
theorem types_after (script : List Step) (s : Session) :
    (s.after script).types = learnedAlong script s ++ s.types := by
  induction script generalizing s with
  | nil => rfl
  | cons next script ih =>
      calc ((s.step next).2.after script).types
          = learnedAlong script (s.step next).2 ++ (s.step next).2.types := ih _
        _ = learnedAlong (next :: script) s ++ s.types := by rw [types_step, learnedAlong, List.append_assoc]

/-- A known type is learned anew only by its creation. -/
theorem lookup_learned {next : Step} {s : Session} {name : String} {found : Option Json}
    (hknown : s.types.lookup name = some found) (hother : next.createdType ≠ some name) :
    (s.learned next).lookup name = none := by
  have hlooked : ∀ wanted, (s.looked wanted).lookup name = none := by
    intro wanted
    unfold looked
    split
    · rename_i hunknown _
      have hne : name ≠ wanted := by
        rintro rfl
        cases hknown.symm.trans hunknown
      rw [List.lookup_cons, beq_false_of_ne hne]
      rfl
    · rfl
  unfold learned
  split
  · rename_i created schema metadata
    have hne : name ≠ created := fun h => hother (congrArg some h.symm)
    cases ((createType created schema metadata).run s).1 with
    | error fault => rfl
    | ok record =>
        rw [noted, List.lookup_cons, beq_false_of_ne hne]
        rfl
  · rename_i request _
    cases request.wantedType with
    | none => rfl
    | some wanted => exact hlooked wanted
  · rfl
  · rfl

/-- What is known of a type lasts until a type is created under its name. -/
theorem lookup_types_after {s : Session} {name : String} {found : Option Json}
    (hknown : s.types.lookup name = some found) {later : List Step}
    (hother : ∀ next ∈ later, next.createdType ≠ some name) :
    (s.after later).types.lookup name = some found := by
  induction later generalizing s with
  | nil => exact hknown
  | cons next later ih =>
      obtain ⟨hnext, hlater⟩ := List.forall_mem_cons.mp hother
      refine ih ?_ hlater
      rw [types_step, List.lookup_append, lookup_learned hknown hnext, Option.none_or, hknown]

/-! ### Answers -/

/-- The session answers for a type with what was found of it: to who asks for the type, and in the casts of documents
that are searched by it. The work goes on from the session `base`. -/
structure Answers (s : Session) (name : String) (found : Option Json) (base : Session) : Prop where
  getType : (getType name).run s = (.ok found, { base with queue := base.queue ++ [found.getD .null] })
  searchDocuments : ∀ filter traits, (searchDocuments name filter traits).run s =
    (selectResult .document (schemaOf found) (typedFilter name filter) traits).run base
  search : ∀ filter traits, typeFilter filter = some name → (search .document filter traits).run s =
    (selectResult .document (schemaOf found) filter traits).run base

theorem answers_of_lookupType {s base : Session} {name : String} {found : Option Json}
    (hlookup : (lookupType name).run s = (.ok found, base)) : s.Answers name found base := by
  have hschema : (typeSchema name).run s = (.ok (schemaOf found), base) := by
    rw [typeSchema, run_bind, hlookup]
    rfl
  refine ⟨?_, fun filter traits => ?_, fun filter traits hfilter => ?_⟩
  · rw [Session.getType, run_bind, hlookup]
    rfl
  · rw [Session.searchDocuments, run_bind, hschema]
  · unfold Session.search
    rw [hfilter]
    dsimp only
    rw [run_bind, hschema]

theorem answers_of_known {s : Session} {name : String} {found : Option Json}
    (hknown : s.types.lookup name = some found) : s.Answers name found s :=
  answers_of_lookupType (by rw [run_lookupType_eq, hknown])

/-- **What a session answers for a type.** What it learned of a name last, on the way or before, is told without
storage, and is told until a type is created under the name by name; no other write changes it. A type so created is
told as storage gave it back. A name of which nothing is known is looked up, and the answer is kept. -/
theorem known_type_answers (s : Session) (script : List Step) (name : String) :
    let reached := s.after script
    reached.types = learnedAlong script s ++ s.types ∧
    (∀ found, reached.types.lookup name = some found →
      ∀ later, (∀ next ∈ later, next.createdType ≠ some name) →
        (reached.after later).Answers name found (reached.after later)) ∧
    (∀ schema metadata created, ((createType name schema metadata).run reached).1 = .ok created →
      ∀ later, (∀ next ∈ later, next.createdType ≠ some name) →
        let created' := (reached.step (.request (.createType name schema metadata))).2.after later
        created'.Answers name (some created) created') ∧
    (reached.types.lookup name = none → ∀ found next, (lookup .type "$name" name).run reached = (.ok found, next) →
      reached.Answers name found { next with types := (name, found) :: next.types }) := by
  intro reached
  refine ⟨types_after script s, fun found hknown later hother => ?_,
    fun schema metadata created hcreated later hother => ?_, fun hunknown found next hfound => ?_⟩
  · exact answers_of_known (lookup_types_after hknown hother)
  · refine answers_of_known (lookup_types_after ?_ hother)
    rw [types_step, learned, hcreated, noted, List.cons_append, List.lookup_cons, beq_self_eq_true]
  · exact answers_of_lookupType (by rw [run_lookupType_eq, hunknown, hfound])

/-- A type that is created by name is told after the commit, and documents are cast by its schema. -/
theorem known_type_answers_created :
    let row : Row := [("id", .string "t1"), ("name", .string "User"), ("schema", .object [])]
    let script : List Step := [.circumstance (.answer (.ok [row]))]
    let later : List Step := [.request (.finish .commit)]
    ∃ s, start Settings.default (.ofBackend (.scripted [])) true = .ok s ∧
      let created := ((s.after script).step (.request (.createType "User" (.object []) .null))).2.after later
      created.Answers "User" (some (.object row)) created ∧ schemaOf (some (.object row)) = ⟨.object []⟩ := by
  intro row script later
  refine ⟨_, rfl, ?_, rfl⟩
  generalize hopened : (opened Settings.default _ true).watch = s
  have hcreated : ((createType "User" (.object []) .null).run (s.after script)).1 = .ok (.object row) := by
    subst hopened
    cbv
  obtain ⟨-, -, hcreation, -⟩ := known_type_answers s script "User"
  refine hcreation (.object []) .null (.object row) hcreated later fun next hnext => ?_
  rw [List.mem_singleton.mp hnext]
  exact (Option.some_ne_none "User").symm

/-- A type is created by name and its record deleted by identity. The type is still told as it was created. -/
theorem deleted_type_answered :
    let row : Row := [("id", .string "t1"), ("name", .string "User"), ("schema", .object [])]
    let script : List Step := [.circumstance (.answer (.ok [row])), .request (.createType "User" (.object []) .null),
      .circumstance (.answer (.ok [row]))]
    ∃ s, start Settings.default (.ofBackend (.scripted [])) true = .ok s ∧
      ((delete .type "t1").run (s.after script)).1 = .ok true ∧
      ((getType "User").run ((s.after script).step (.request (.delete .type "t1"))).2).1 =
        .ok (some (.object row)) := by
  intro row script
  refine ⟨_, rfl, ?_, ?_⟩ <;> cbv

end Session

end Dossier
