import Registrar.Proofs.Http.Requests

/-!
# Prerequisites over a run of requests

A service answers requests one after another: `Service.after` is what they make of it and
`Service.exchanges` are the requests with their answers.  `lastWrite` looks among those for the
last one that wrote the prerequisites of a course.

`prerequisites_follow_last_write` says that reading answers what was written last, or what was
loaded; that nothing else is ever changed; and that the tree of an answer can be sent back.
-/

namespace Registrar.Http

open Json
open Prerequisite (Tree Spec FlatSpec)

/-! ### Runs -/

/-- The service after requests, one after another. -/
def Service.after (s : Service) : List Request → Service
  | [] => s
  | r :: rs => (s.handle r).2.after rs

/-- The requests with their answers. -/
def Service.exchanges (s : Service) : List Request → List (Request × Response)
  | [] => []
  | r :: rs => (r, (s.handle r).1) :: (s.handle r).2.exchanges rs

/-- What an exchange has written of the prerequisites of a course: the body of its answer, or
that there are none. -/
def writtenTo? (course : CourseId) (exchange : Request × Response) : Option (Option String) :=
  match exchange.1.written? exchange.2 with
  | some (other, body) => if other = course then some body else none
  | none => none

/-- What has been written last of the prerequisites of a course. -/
def lastWrite (course : CourseId) (exchanges : List (Request × Response)) :
    Option (Option String) :=
  exchanges.reverse.findSome? (writtenTo? course)

theorem lastWrite_cons (course : CourseId) (exchange : Request × Response)
    (rest : List (Request × Response)) :
    lastWrite course (exchange :: rest) =
      (lastWrite course rest).or (writtenTo? course exchange) := by
  rw [lastWrite, lastWrite, List.reverse_cons, List.findSome?_append,
    List.findSome?_singleton]

/-! ### What is shown -/

variable {h : Holdings} {limit : Nat} {ready : Bool} {course : CourseId}

/-- The body that shows the prerequisites of a course, if there are any. -/
def shown (h : Holdings) (course : CourseId) : Option String :=
  (h.prerequisites.tree? course).map fun t => (treeView course t).compact

theorem Service.get_prerequisites (hclosed : h.Closed) {t : Tree}
    (ht : h.prerequisites.tree? course = some t) :
    (ofHoldings h limit ready).get (.prerequisites course) = .json 200 (treeView course t) := by
  have hanswer : (Desk.ofHoldings h limit).prerequisites course = .ok t :=
    Desk.prerequisites_eq_ok_iff.mpr ⟨hclosed.stored_courses course t ht, ht⟩
  exact congrArg (Response.ofAnswer (treeView course)) hanswer

theorem Service.status_get_prerequisites (ht : h.prerequisites.tree? course = none) :
    ((ofHoldings h limit ready).get (.prerequisites course)).status = 404 := by
  obtain ⟨what, hanswer⟩ := Desk.exists_unknown_of_tree?_eq_none ht limit
  exact congrArg (fun answer => (Response.ofAnswer (treeView course) answer).status) hanswer

/-- The prerequisites of a course are answered as they are shown. -/
theorem Service.get_prerequisites_shown (hclosed : h.Closed) :
    match shown h course with
    | some body => (ofHoldings h limit ready).get (.prerequisites course) = ⟨200, some body⟩
    | none => ((ofHoldings h limit ready).get (.prerequisites course)).status = 404 := by
  rw [shown]
  cases ht : h.prerequisites.tree? course with
  | some t => exact get_prerequisites hclosed ht
  | none => exact status_get_prerequisites ht

/-- What is answered of a course is the tree in the store. -/
theorem Service.exists_of_get_prerequisites (hclosed : h.Closed) {body : String}
    (hanswer : (ofHoldings h limit ready).get (.prerequisites course) = ⟨200, some body⟩) :
    ∃ t, h.prerequisites.tree? course = some t ∧ (treeView course t).compact = body := by
  cases ht : h.prerequisites.tree? course with
  | some t =>
    rw [get_prerequisites hclosed ht] at hanswer
    exact ⟨t, rfl, Option.some.inj (Response.mk.inj hanswer).2⟩
  | none =>
    have hstatus := @status_get_prerequisites h limit ready course ht
    rw [hanswer] at hstatus
    exact absurd hstatus (by simp)

/-- A step changes what is shown of one course, to what it writes. -/
theorem shown_of_step {r : Request} {a : Response} {h' : Holdings} (hstep : Step h limit r a h') :
    shown h' course = ((writtenTo? course (r, a)).getD (shown h course)) := by
  -- A step shows at the course that it writes to and at no other.
  cases hstep with
  | unchanged hwritten => simp only [writtenTo?, hwritten, Option.getD_none]
  | @stored stored t hcourse hleaves hwithin hresendable hwritten =>
    simp only [writtenTo?, hwritten, shown, Prerequisite.Store.tree?_replace]
    by_cases hsame : stored = course
    · subst hsame
      simp
    · rw [if_neg hsame, if_neg (Ne.symm hsame)]
      rfl
  | @removed removed hcourse hwritten =>
    simp only [writtenTo?, hwritten, shown, Prerequisite.Store.tree?_remove]
    by_cases hsame : removed = course
    · subst hsame
      simp
    · rw [if_neg hsame, if_neg (Ne.symm hsame)]
      rfl

/-! ### What steps keep -/

theorem Step.maintained {r : Request} {a : Response} {h' : Holdings} (hstep : Step h limit r a h')
    (hmaintained : h.Maintained limit) : h'.Maintained limit := by
  cases hstep with
  | unchanged => exact hmaintained
  | stored hcourse hleaves hwithin hresendable =>
    exact hmaintained.replace hcourse hleaves hwithin hresendable
  | removed => exact hmaintained.remove _

theorem Step.records_eq {r : Request} {a : Response} {h' : Holdings} (hstep : Step h limit r a h') :
    h'.records = h.records := by
  cases hstep <;> rfl

theorem Step.tree?_eq {r : Request} {a : Response} {h' : Holdings} (hstep : Step h limit r a h')
    {body : Option String} (hwritten : r.written? a = some (course, body)) {other : CourseId}
    (hother : other ≠ course) :
    h'.prerequisites.tree? other = h.prerequisites.tree? other := by
  cases hstep with
  | unchanged hnone => exact absurd (hnone.symm.trans hwritten) (by simp)
  | stored _ _ _ _ hstored =>
    obtain ⟨rfl, -⟩ := Prod.mk.inj (Option.some.inj (hstored.symm.trans hwritten))
    exact (Prerequisite.Store.tree?_replace _ _ _ _).trans (if_neg hother)
  | removed _ hremoved =>
    obtain ⟨rfl, -⟩ := Prod.mk.inj (Option.some.inj (hremoved.symm.trans hwritten))
    exact (Prerequisite.Store.tree?_remove _ _ _).trans (if_neg hother)

theorem Step.eq_of_written?_eq_none {r : Request} {a : Response} {h' : Holdings}
    (hstep : Step h limit r a h') (hnone : r.written? a = none) : h' = h := by
  cases hstep with
  | unchanged => rfl
  | stored _ _ _ _ hstored => exact absurd (hstored.symm.trans hnone) (by simp)
  | removed _ hremoved => exact absurd (hremoved.symm.trans hnone) (by simp)

/-- After a run the service has maintained holdings, and what is shown of a course is what has
been written last, or what was shown at the start. -/
theorem exists_after_eq (hmaintained : h.Maintained limit) (ready : Bool)
    (requests : List Request) :
    ∃ h', (Service.ofHoldings h limit ready).after requests =
        Service.ofHoldings h' limit ready ∧ h'.Maintained limit ∧
      ∀ course, shown h' course =
        (lastWrite course ((Service.ofHoldings h limit ready).exchanges requests)).getD
          (shown h course) := by
  -- The first request is a step, and the others are a run from where it leads.
  induction requests generalizing h with
  | nil => exact ⟨h, rfl, hmaintained, fun _ => rfl⟩
  | cons r rest ih =>
    obtain ⟨next, hnext, hstep⟩ := Service.isStep_handle h limit ready r
    obtain ⟨h', hafter, hmaintained', hshown⟩ := ih (hstep.maintained hmaintained)
    refine ⟨h', ?_, hmaintained', fun course => ?_⟩
    · rw [Service.after, hnext, hafter]
    · rw [Service.exchanges, lastWrite_cons, hnext, hshown course, shown_of_step hstep]
      cases lastWrite course ((Service.ofHoldings next limit ready).exchanges rest) <;> rfl

/-! ### Sending a tree back -/

/-- The tree is the last member of the view, where it stands as it would be sent. -/
theorem exists_compact_treeView (course : CourseId) (t : Tree) :
    ∃ front, (treeView course t).compact =
      front ++ "\"tree\":" ++ t.toSpec.toJson.compact ++ "\x7d" := by
  refine ⟨"\x7b" ++ Value.compactMembers [("course_id", .natural course.toNat),
    ("expression", .string t.text), ("depth", .natural t.depth)] ++ ",", ?_⟩
  have hquote : quote "tree" = "\"tree\"" := by decide
  simp only [treeView, Value.compact, Value.compactMembers, hquote, String.append_assoc]
  rfl

theorem isExact_treeView (course : CourseId) (t : Tree) : (treeView course t).IsExact :=
  ⟨trivial, trivial, trivial, t.toSpec.isExact_toJson, trivial⟩

theorem member?_treeView (course : CourseId) (t : Tree) :
    (Reading.ofBytes (Text.bytes (treeView course t).compact)).1.member? "tree" =
      some (Reading.ofBytes (Text.bytes t.toSpec.toJson.compact)).1 := by
  rw [Value.ofBytes_compact (isExact_treeView course t),
    Value.ofBytes_compact t.toSpec.isExact_toJson, treeView, Value.member?_reading]
  rfl

namespace Service

theorem handle_get {s : Service} {r : Request} {route : Route} (hmethod : r.method = "GET")
    (hroute : r.route? = some route) : s.handle r = (s.get route, s) := by
  rw [handle_of_route? hroute, perform, hmethod]
  rfl

theorem handle_put {s : Service} {r : Request} {route : Route} (hmethod : r.method = "PUT")
    (hroute : r.route? = some route) : s.handle r = s.put r route := by
  rw [handle_of_route? hroute, perform, hmethod]
  rfl

/-- A stored tree that is sent back is stored again. -/
theorem put_stored (hmaintained : h.Maintained limit) {t : Tree}
    (ht : h.prerequisites.tree? course = some t) {r : Request}
    (htype : r.contentType.any announcesJson = true) (hsize : r.body.length ≤ bodyLimit)
    (hbody : (Reading.ofBytes r.body).1 =
      (Reading.ofBytes (Text.bytes t.toSpec.toJson.compact)).1) :
    (ofHoldings h limit ready).put r (.prerequisites course) =
      (.json 200 (treeView course t),
        ofHoldings { h with prerequisites := (h.prerequisites.replace course t).2 } limit
          ready) := by
  obtain ⟨hadmitted, hnesting⟩ := hmaintained.resendable course t ht
  -- The body says what the written tree says, and the tree is not nested too deep.
  have hread : readBody Spec.decoder r = .ok t.toSpec := by
    refine readBody_eq_ok_iff.mpr ⟨htype, hsize, ?_⟩
    rw [decodeFront, hbody, Value.ofBytes_compact t.toSpec.isExact_toJson, Spec.decoder,
      Spec.decoderWithin_toJson _ _ _ (by decide), if_pos hnesting]
  have hset : (Desk.ofHoldings h limit).setPrerequisites course t.toSpec = .ok (t, Desk.ofHoldings
      { h with prerequisites := (h.prerequisites.replace course t).2 } limit) := by
    refine Desk.setPrerequisites_eq_ok_iff.mpr ⟨t, hadmitted, Desk.install_eq_ok_iff.mpr ?_⟩
    exact ⟨hmaintained.closed.stored_courses course t ht,
      hmaintained.closed.stored_leaves course t ht, rfl⟩
  have hdesk : (ofHoldings h limit ready).desk = Desk.ofHoldings h limit := rfl
  rw [put, hread]
  simp only [hdesk, hset]
  rfl

end Service

/-! ### Runs from a loaded catalog -/

/-- **Reading answers what was written last, nothing else changes, and what is read can be sent
back.**  After any requests to a service with loaded holdings:

* the prerequisites of a course are answered with the body of the last write to it, with the view
  of the loaded tree if there was none, and by 404 if the tree has been taken away or there never
  was one;
* a request to read and a refused one leave everything as it is, and one that writes changes one
  course;
* a body that says what the tree of an answer says, as its text in the answer does, is answered
  in the same way and leaves every tree as it is. -/
theorem prerequisites_follow_last_write {files : Command.FileReader Id} {settings : Settings}
    {sources : Command.Sources} (hload : (Command.load files settings sources).run = .ok h)
    (ready : Bool) (requests : List Request) :
    let start := Service.ofHoldings h settings.depthLimit ready
    let s := start.after requests
    (∀ r course, r.method = "GET" → r.route? = some (.prerequisites course) →
      match (lastWrite course (start.exchanges requests)).getD (shown h course) with
      | some body => (s.handle r).1 = ⟨200, some body⟩
      | none => (s.handle r).1.status = 404) ∧
    (∀ r, r.method = "GET" ∨ 400 ≤ (s.handle r).1.status ∧ (s.handle r).1.status < 500 →
      (s.handle r).2 = s) ∧
    (∀ r course body, r.written? (s.handle r).1 = some (course, body) →
      (s.handle r).2.desk.holdings.records = s.desk.holdings.records ∧
      ∀ other, other ≠ course → (s.handle r).2.desk.holdings.prerequisites.tree? other =
        s.desk.holdings.prerequisites.tree? other) ∧
    ∀ read course body, read.method = "GET" → read.route? = some (.prerequisites course) →
      (s.handle read).1 = ⟨200, some body⟩ →
      (∃ front tree, body = front ++ "\"tree\":" ++ tree ++ "\x7d" ∧
        (Reading.ofBytes (Text.bytes body)).1.member? "tree" =
          some (Reading.ofBytes (Text.bytes tree)).1) ∧
      ∀ r, r.method = "PUT" → r.route? = some (.prerequisites course) →
        r.contentType.any announcesJson = true → r.body.length ≤ bodyLimit →
        (Reading.ofBytes (Text.bytes body)).1.member? "tree" =
          some (Reading.ofBytes r.body).1 →
        (s.handle r).1 = (s.handle read).1 ∧
        (s.handle r).2.desk.holdings.records = s.desk.holdings.records ∧
        ∀ other, (s.handle r).2.desk.holdings.prerequisites.tree? other =
          s.desk.holdings.prerequisites.tree? other := by
  intro start s
  obtain ⟨h', hafter, hmaintained, hshown⟩ :=
    exists_after_eq (Holdings.maintained_of_load hload) ready requests
  have hs : s = Service.ofHoldings h' settings.depthLimit ready := hafter
  refine ⟨fun r course hmethod hroute => ?_, fun r hr => ?_, fun r course body hwritten => ?_,
    fun read course body hmethod hroute hanswer => ?_⟩
  · -- What is read is what is shown, and that is what has been written last.
    have hanswer := @Service.get_prerequisites_shown h' settings.depthLimit ready course
      hmaintained.closed
    rw [hshown course, ← hs] at hanswer
    rw [Service.handle_get hmethod hroute]
    exact hanswer
  · obtain ⟨next, hnext, hstep⟩ := Service.isStep_handle h' settings.depthLimit ready r
    rw [← hs] at hnext hstep
    -- Neither a request to read nor a refused one has written anything.
    have hnone : r.written? (s.handle r).1 = none := by
      rcases hr with hmethod | hrefused
      · exact Request.written?_of_get (.inl hmethod) _
      · exact Request.written?_eq_none hrefused.1
    rw [hnext, hstep.eq_of_written?_eq_none hnone, hs]
  · obtain ⟨next, hnext, hstep⟩ := Service.isStep_handle h' settings.depthLimit ready r
    rw [← hs] at hnext hstep
    rw [hnext, hs]
    exact ⟨hstep.records_eq, fun other hother => hstep.tree?_eq hwritten hother⟩
  · rw [Service.handle_get hmethod hroute, hs] at hanswer
    obtain ⟨t, ht, rfl⟩ := Service.exists_of_get_prerequisites hmaintained.closed hanswer
    refine ⟨?_, fun r hput hroute' htype hsize hbody => ?_⟩
    · obtain ⟨front, hfront⟩ := exists_compact_treeView course t
      exact ⟨front, _, hfront, member?_treeView course t⟩
    · -- The body says what the text of the tree says, whatever its blanks.
      rw [member?_treeView, Option.some.injEq] at hbody
      rw [Service.handle_get hmethod hroute, Service.handle_put hput hroute', hs, hanswer,
        Service.put_stored hmaintained ht htype hsize hbody.symm]
      refine ⟨rfl, rfl, fun other => ?_⟩
      exact Prerequisite.Store.tree?_replace_self ht other

/-- A catalog asks for course 1 before course 2.  After course 1 has been given prerequisites and
those of course 2 have been taken away, that is what is answered, and the tree of the answer can be
sent back. -/
theorem prerequisites_follow_last_write_of_two_courses :
    let files : Command.FileReader Id := fun _ => .ok (Text.bytes
      ("\x7b\"courses\":[\x7b\"id\":1,\"subject\":\"CS\",\"number\":\"1\",\"credits\":3\x7d,"
        ++ "\x7b\"id\":2,\"subject\":\"CS\",\"number\":\"2\",\"credits\":3,"
        ++ "\"prerequisites\":\x7b\"courseId\":1\x7d\x7d]\x7d"))
    let settings : Settings := ⟨.test, "localhost", 8080, "info", 8, some "catalog.json"⟩
    let writes : List Request :=
      [⟨"PUT", "/api/v1/courses/1/prerequisites", some "application/json",
        Text.bytes "\x7b\"type\":\"or\",\"items\":[\x7b\"courseId\":2\x7d]\x7d"⟩,
        ⟨"DELETE", "/api/v1/courses/2/prerequisites", none, []⟩]
    let tree := "\x7b\"type\":\"OR\",\"items\":[\x7b\"courseId\":2\x7d]\x7d"
    let answer : Response := ⟨200, some ("\x7b\"course_id\":1,\"expression\":\"2\",\"depth\":2,"
      ++ "\"tree\":" ++ tree ++ "\x7d")⟩
    ∃ h : Holdings, (Command.load files settings ⟨none, none⟩).run = .ok h ∧
      let s := (Service.ofHoldings h 8 true).after writes
      (s.handle ⟨"GET", "/api/v1/courses/1/prerequisites", none, []⟩).1 = answer ∧
      (s.handle ⟨"GET", "/api/v1/courses/2/prerequisites", none, []⟩).1.status = 404 ∧
      (s.handle ⟨"PUT", "/api/v1/courses/1/prerequisites", some "application/json",
        Text.bytes tree⟩).1 = answer := by
  intro files settings writes tree answer
  let h : Holdings :=
    ⟨⟨[⟨1, "CS", "1", "", 3⟩, ⟨2, "CS", "2", "", 3⟩], [], [], [], []⟩, ⟨[(2, ⟨.course 1, 1⟩)]⟩⟩
  have hload : @Eq (Except Failure Holdings) (Command.load files settings ⟨none, none⟩).run
      (.ok h) := by
    decide +kernel
  refine ⟨h, hload, ?_⟩
  intro s
  obtain ⟨hread, -, -, hback⟩ := prerequisites_follow_last_write hload true writes
  have hfirst : (⟨"GET", "/api/v1/courses/1/prerequisites", none, []⟩ : Request).route? =
      some (.prerequisites 1) := by
    decide +kernel
  have hsecond : (⟨"GET", "/api/v1/courses/2/prerequisites", none, []⟩ : Request).route? =
      some (.prerequisites 2) := by
    decide +kernel
  -- The last writes are computed; the answers follow from the theorem.
  have hwritten : (lastWrite 1 ((Service.ofHoldings h 8 true).exchanges writes)).getD (shown h 1) =
      answer.body := by
    decide +kernel
  have hremoved : (lastWrite 2 ((Service.ofHoldings h 8 true).exchanges writes)).getD (shown h 2) =
      none := by
    decide +kernel
  have hanswer := hread _ 1 rfl hfirst
  rw [hwritten] at hanswer
  have hnone := hread _ 2 rfl hsecond
  rw [hremoved] at hnone
  refine ⟨hanswer, hnone, ?_⟩
  have hagain := (hback _ 1 _ rfl hfirst hanswer).2
    ⟨"PUT", "/api/v1/courses/1/prerequisites", some "application/json", Text.bytes tree⟩ rfl
    (by decide +kernel) (by decide +kernel) (by decide +kernel) (by rfl)
  exact hagain.1.trans hanswer

end Registrar.Http
