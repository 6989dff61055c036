import Registrar.Proofs.Holdings.Maintained

/-!
# What requests do

A request has a route if its path names a resource and gives the parameters of it
(`Request.route?`).  With a route it is performed (`handle_of_route?`), and without one it is
refused.

`Step` says once what a request can do to the holdings of a service: nothing, give a course a tree
and answer with it, or take the tree of a course away.  `Request.written?` tells these apart from
outside, by the request and its answer, and `isStep_handle` says that there are no others.
-/

namespace Registrar.Http

open Json
open Prerequisite (Tree Spec FlatSpec)

/-- Does the answer say that all went well? -/
def Response.succeeded (a : Response) : Bool :=
  200 ≤ a.status && a.status < 300

namespace Request

/-- What the request is about, if its path names a resource and gives the parameters of it. -/
def route? (r : Request) : Option Route := do
  let (resource, parameters) ← (segments? (pathOf r.target)).bind findResource
  Route.ofResource? parameters resource

/-- The course whose prerequisites a request has written, if it is answered like this, and the
body of the answer; none where they have been taken away. -/
def written? (r : Request) (a : Response) : Option (CourseId × Option String) :=
  if a.succeeded then
    match r.method, r.route? with
    | "PUT", some (.prerequisites course) => some (course, a.body)
    | "PUT", some (.flatPrerequisites course) => some (course, a.body)
    | "DELETE", some (.prerequisites course) => some (course, none)
    | _, _ => none
  else none

end Request

/-- The resource that a route leads to. -/
def Route.resource : Route → Resource
  | .health => .health
  | .readiness => .readiness
  | .metrics => .metrics
  | .summary => .summary
  | .eligibility _ _ => .eligibility
  | .eligibleCourses _ => .eligibleCourses
  | .overallAudit _ => .overallAudit
  | .majorAudit _ _ => .majorAudit
  | .completedRequirements _ _ => .completedRequirements
  | .remainingRequirements _ _ => .remainingRequirements
  | .requirementAudit _ _ => .requirementAudit
  | .prerequisites _ => .prerequisites
  | .flatPrerequisites _ => .flatPrerequisites

theorem Route.resource_of_ofResource? {parameters : List (List Char)} {resource : Resource}
    {route : Route} (h : Route.ofResource? parameters resource = some route) :
    route.resource = resource := by
  cases resource <;> simp only [Route.ofResource?, Option.map_eq_some_iff, Option.some.injEq] at h
  case health | readiness | metrics | summary => exact h ▸ rfl
  all_goals
    obtain ⟨_, -, rfl⟩ := h
    rfl

namespace Service

/-- A method that the resource has not is refused. -/
theorem perform_of_not_mem {s : Service} {r : Request} {route : Route}
    (h : r.method ∉ route.resource.methods) : s.perform r route = (.bare 405, s) := by
  unfold perform
  split
  -- A route with the method is excluded, and any other one refuses it as it is.
  case h_1 hmethod | h_2 hmethod | h_3 hmethod | h_4 hmethod =>
    rw [hmethod] at h
    cases route <;> simp [Route.resource, Resource.methods] at h <;> rfl
  case h_5 => rfl

theorem handle_of_route? {s : Service} {r : Request} {route : Route} (h : r.route? = some route) :
    s.handle r = s.perform r route := by
  obtain ⟨⟨resource, parameters⟩, hfound, hroute⟩ := Option.bind_eq_some_iff.mp h
  have hresource := Route.resource_of_ofResource? hroute
  simp only [handle, hfound]
  by_cases hmethod : r.method ∈ resource.methods
  · have hcontains : resource.methods.contains r.method = true := List.contains_iff_mem.mpr hmethod
    simp only [hcontains, hroute]
    rfl
  · rw [perform_of_not_mem (hresource ▸ hmethod)]
    have hcontains : resource.methods.contains r.method = false := by
      simpa using hmethod
    simp only [hcontains]
    rfl

theorem handle_of_route?_eq_none {s : Service} {r : Request} (h : r.route? = none) :
    ∃ status, s.handle r = (.bare status, s) ∧ 400 ≤ status := by
  unfold handle
  split
  · exact ⟨404, rfl, by decide⟩
  · rename_i resource parameters hfound
    have hroute : Route.ofResource? parameters resource = none := by
      rw [Request.route?, hfound] at h
      exact h
    split
    · exact ⟨405, rfl, by decide⟩
    · rw [hroute]
      exact ⟨400, rfl, by decide⟩

end Service

/-! ### Bodies and refusals -/

/-- A body is read if it is announced as JSON, not too large, and begins with what is wanted. -/
theorem readBody_eq_ok_iff {α : Type} {decode : Decoder α} {r : Request} {a : α} :
    readBody decode r = .ok a ↔
      r.contentType.any announcesJson = true ∧ r.body.length ≤ bodyLimit ∧
        decodeFront decode r.body = .ok a := by
  unfold readBody
  cases htype : r.contentType.any announcesJson with
  | false => simp
  | true =>
    by_cases hsize : r.body.length ≤ bodyLimit
    · have hnot : ¬r.body.length > bodyLimit := Nat.not_lt.mpr hsize
      simp only [Bool.not_true, Bool.false_eq_true, if_false, if_neg hnot, hsize, true_and]
      cases hread : decodeFront decode r.body with
      | ok found => simp
      | error fault => cases fault <;> simp
    · have hlarge : r.body.length > bodyLimit := Nat.not_le.mp hsize
      simp [hlarge, hsize]

theorem Response.succeeded_eq_false {a : Response} (h : 400 ≤ a.status) : a.succeeded = false := by
  have hlarge : ¬a.status < 300 := by omega
  simp only [Response.succeeded, decide_eq_false hlarge, Bool.and_false]

theorem Response.le_statusOf (e : AdvisingError) : 400 ≤ Response.statusOf e := by
  unfold Response.statusOf
  split <;> decide

theorem le_status_of_readBody {α : Type} {decode : Decoder α} {r : Request} {refusal : Response}
    (h : readBody decode r = .error refusal) : 400 ≤ refusal.status := by
  unfold readBody at h
  split_ifs at h
  · exact Except.error.inj h ▸ (by decide : 400 ≤ (Response.bare 415).status)
  · exact Except.error.inj h ▸ (by decide : 400 ≤ (Response.bare 413).status)
  · split at h
    · exact absurd h (by simp)
    · exact Except.error.inj h ▸ (by decide : 400 ≤ (Response.bare 422).status)
    · exact Except.error.inj h ▸ (by decide : 400 ≤ (Response.bare 400).status)

theorem Request.written?_eq_none {r : Request} {a : Response} (h : 400 ≤ a.status) :
    r.written? a = none := by
  simp only [Request.written?, Response.succeeded_eq_false h, Bool.false_eq_true, if_false]

theorem Request.written?_of_get {r : Request} (h : r.method = "GET" ∨ r.method = "HEAD")
    (a : Response) : r.written? a = none := by
  have hput : r.method ≠ "PUT" := by
    rcases h with h | h <;> rw [h] <;> decide
  have hdelete : r.method ≠ "DELETE" := by
    rcases h with h | h <;> rw [h] <;> decide
  unfold Request.written?
  split
  · split
    · rename_i hmethod _
      exact absurd hmethod hput
    · rename_i hmethod _
      exact absurd hmethod hput
    · rename_i hmethod _
      exact absurd hmethod hdelete
    · rfl
  · rfl

theorem Request.written?_of_put {r : Request} {course : CourseId} (hmethod : r.method = "PUT")
    (hroute : r.route? = some (.prerequisites course) ∨
      r.route? = some (.flatPrerequisites course)) (body : String) :
    r.written? ⟨200, some body⟩ = some (course, some body) := by
  rcases hroute with hroute | hroute
  · simp only [Request.written?, hmethod, hroute]
    rfl
  · simp only [Request.written?, hmethod, hroute]
    rfl

/-! ### Steps -/

/-- The holdings become others by a request that is answered like this. -/
inductive Step (h : Holdings) (limit : Nat) (r : Request) : Response → Holdings → Prop
  | unchanged {a : Response} (hwritten : r.written? a = none) : Step h limit r a h
  | stored {course : CourseId} {t : Tree} (hcourse : course ∈ h.records.courseIds)
    (hleaves : ∀ leaf ∈ t.root.leaves, leaf ∈ h.records.courseIds) (hwithin : t.WithinLimit)
    (hresendable : t.Resendable limit)
    (hwritten : r.written? (.json 200 (treeView course t)) =
      some (course, some (treeView course t).compact)) :
    Step h limit r (.json 200 (treeView course t))
      { h with prerequisites := (h.prerequisites.replace course t).2 }
  | removed {course : CourseId} (hcourse : course ∈ h.records.courseIds)
    (hwritten : r.written? (.bare 204) = some (course, none)) :
    Step h limit r (.bare 204)
      { h with prerequisites := (h.prerequisites.remove course).2 }

/-- A service with everything within reach. -/
def Service.ofHoldings (h : Holdings) (limit : Nat) (ready : Bool) : Service :=
  ⟨Desk.ofHoldings h limit, ready⟩

/-- The outcome of a request is one of the steps. -/
def IsStep (h : Holdings) (limit : Nat) (ready : Bool) (r : Request)
    (outcome : Response × Service) : Prop :=
  ∃ h', outcome.2 = Service.ofHoldings h' limit ready ∧ Step h limit r outcome.1 h'

namespace Service

variable {h : Holdings} {limit : Nat} {ready : Bool} {r : Request} {course : CourseId}

theorem written_cases {α : Type} (s : Service) (answer : α → Response)
    (outcome : Except AdvisingError (α × Desk)) :
    (∃ a desk, outcome = .ok (a, desk) ∧ s.written answer outcome = (answer a, { s with desk })) ∨
    ∃ a, s.written answer outcome = (a, s) ∧ 400 ≤ a.status := by
  cases outcome with
  | ok found => exact .inl ⟨found.1, found.2, rfl, rfl⟩
  | error e => exact .inr ⟨_, rfl, Response.le_statusOf e⟩

theorem isStep_of_le_status {outcome : Response × Service}
    (houtcome : ∃ a, outcome = (a, ofHoldings h limit ready) ∧ 400 ≤ a.status) :
    IsStep h limit ready r outcome := by
  obtain ⟨a, rfl, hstatus⟩ := houtcome
  exact ⟨h, rfl, .unchanged (Request.written?_eq_none hstatus)⟩

/-- A tree that is installed is stored, whatever the form in which it has been sent. -/
theorem isStep_of_install {outcome : Except AdvisingError (Tree × Desk)}
    (hwritten : ∀ body, r.written? ⟨200, some body⟩ = some (course, some body))
    (hinstall : ∀ answer, outcome = .ok answer →
      ∃ t, (Desk.ofHoldings h limit).install course t = .ok answer ∧ t.WithinLimit ∧
        t.Resendable limit) :
    IsStep h limit ready r
      ((ofHoldings h limit ready).written (fun t => .json 200 (treeView course t)) outcome) := by
  obtain ⟨t, desk, hok, hanswer⟩ | hrefused := written_cases
    (ofHoldings h limit ready) (fun t => .json 200 (treeView course t)) outcome
  · obtain ⟨t', hstored, hwithin, hresendable⟩ := hinstall _ hok
    obtain ⟨hcourse, hleaves, heq⟩ := Desk.install_eq_ok_iff.mp hstored
    obtain ⟨rfl, rfl⟩ := Prod.mk.inj heq
    rw [hanswer]
    exact ⟨_, rfl, .stored hcourse hleaves hwithin hresendable (hwritten _)⟩
  · exact isStep_of_le_status hrefused

theorem isStep_put {route : Route} (hmethod : r.method = "PUT") (hroute : r.route? = some route) :
    IsStep h limit ready r ((ofHoldings h limit ready).put r route) := by
  unfold put
  split
  · rename_i course
    split
    · rename_i refusal hbody
      exact isStep_of_le_status ⟨refusal, rfl, le_status_of_readBody hbody⟩
    · rename_i spec hbody
      obtain ⟨-, -, hread⟩ := readBody_eq_ok_iff.mp hbody
      -- A spec that has been read is not nested too deeply to be read again.
      have hspec := (Spec.yields_decoderWithin _ maxNesting).of_decodeFront hread
      refine isStep_of_install (Request.written?_of_put hmethod (.inl hroute)) fun answer hok => ?_
      obtain ⟨t, ht, hinstall⟩ := Desk.setPrerequisites_eq_ok_iff.mp hok
      exact ⟨t, hinstall, Tree.withinLimit_of_ofSpec ht, Tree.resendable_of_ofSpec ht hspec⟩
  · rename_i course
    split
    · rename_i refusal hbody
      exact isStep_of_le_status ⟨refusal, rfl, le_status_of_readBody hbody⟩
    · refine isStep_of_install (Request.written?_of_put hmethod (.inr hroute)) fun answer hok => ?_
      obtain ⟨t, ht, hinstall⟩ := Desk.setFlatPrerequisites_eq_ok_iff.mp hok
      exact ⟨t, hinstall, Tree.withinLimit_of_ofFlatSpec ht, Tree.resendable_of_ofFlatSpec ht⟩
  · exact isStep_of_le_status ⟨.bare 405, rfl, by decide⟩

theorem isStep_delete {route : Route} (hmethod : r.method = "DELETE")
    (hroute : r.route? = some route) :
    IsStep h limit ready r ((ofHoldings h limit ready).delete route) := by
  unfold delete
  split
  · rename_i course
    obtain ⟨found, desk, hok, hanswer⟩ | hrefused := written_cases (ofHoldings h limit ready)
      (fun _ => .bare 204) ((Desk.ofHoldings h limit).removePrerequisites course)
    · obtain ⟨hcourse, heq⟩ := Desk.removePrerequisites_eq_ok_iff.mp hok
      obtain ⟨rfl, rfl⟩ := Prod.mk.inj heq
      have hdesk : (ofHoldings h limit ready).desk = Desk.ofHoldings h limit := rfl
      rw [hdesk, hanswer]
      refine ⟨_, rfl, .removed hcourse ?_⟩
      simp only [Request.written?, hmethod, hroute]
      rfl
    · exact isStep_of_le_status hrefused
  · exact isStep_of_le_status ⟨.bare 405, rfl, by decide⟩

/-- What a request does is one of the steps. -/
theorem isStep_handle (h : Holdings) (limit : Nat) (ready : Bool) (r : Request) :
    IsStep h limit ready r ((ofHoldings h limit ready).handle r) := by
  cases hroute : r.route? with
  | none =>
    obtain ⟨status, hrefused, hstatus⟩ := handle_of_route?_eq_none hroute
    exact isStep_of_le_status ⟨_, hrefused, hstatus⟩
  | some route =>
    rw [handle_of_route? hroute]
    unfold perform
    split
    · rename_i hmethod
      exact ⟨h, rfl, .unchanged (Request.written?_of_get (.inl hmethod) _)⟩
    · rename_i hmethod
      exact ⟨h, rfl, .unchanged (Request.written?_of_get (.inr hmethod) _)⟩
    · rename_i hmethod
      exact isStep_put hmethod hroute
    · rename_i hmethod
      exact isStep_delete hmethod hroute
    · exact isStep_of_le_status ⟨.bare 405, rfl, by decide⟩

end Service

end Registrar.Http
