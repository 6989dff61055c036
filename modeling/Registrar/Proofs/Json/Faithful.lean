import Registrar.Prerequisite.Spec
import Registrar.Proofs.Calendar.Date
import Registrar.Proofs.Json.Record
import Registrar.Requirement

/-!
# Records read back

A record is `Faithful` if every value of it is read back from the text that is written for it.  Then
a text settles as soon as it is written again: `rewritten` says the same as the text that was read,
and is not changed by being written once more.

Each record is put together from members that are read back one by one (`Record.Reads`), and its
nesting is the room that reading it takes.  The mode of a requirement is no such record, as its kind
decides which members it has (`RequirementMode.decoder_toJson`).
`written_records_are_read_back` lists them all.
-/

namespace Registrar

namespace Json

open Text

variable {α : Type}

/-! ### Settled texts -/

/-- The text of what a text decodes to. -/
def rewritten (decode : Decoder α) (write : α → Value) (bs : Bytes) : Except Fault Bytes :=
  (decodeText decode bs).map fun a => bytes (write a).compact

/-- What is written is read back, and a text that is read and written again says the same and stays
as it is. -/
structure Faithful (decode : Decoder α) (write : α → Value) : Prop where
  read_written : ∀ a, decodeText decode (bytes (write a).compact) = .ok a
  settled : ∀ bs bs', rewritten decode write bs = .ok bs' →
    decodeText decode bs' = decodeText decode bs ∧ rewritten decode write bs' = .ok bs'

/-- It is enough that the reading of every written value is decoded. -/
theorem faithful_of_reading {decode : Decoder α} {write : α → Value}
    (hexact : ∀ a, (write a).IsExact) (hread : ∀ a, decode maxNesting (write a).reading = .ok a) :
    Faithful decode write := by
  have hback : ∀ a, decodeText decode (bytes (write a).compact) = .ok a := fun a =>
    (Value.decodeText_compact decode (hexact a)).trans (hread a)
  refine ⟨hback, fun bs bs' hbs' => ?_⟩
  obtain ⟨a, ha, rfl⟩ := map_eq_ok_iff.mp hbs'
  refine ⟨(hback a).trans ha.symm, ?_⟩
  rw [rewritten, hback a]
  rfl

/-! ### Members of records -/

namespace Record

variable (room : Nat) (name : String)

theorem reads_uint64 (n : UInt64) :
    (required name .uint64).Reads room [name] [(name, .natural n.toNat)] n :=
  reads_member (Decoder.uint64_reading room n)

theorem reads_uint32 (n : UInt32) :
    (required name .uint32).Reads room [name] [(name, .natural n.toNat)] n :=
  reads_member (Decoder.uint32_reading room n)

theorem reads_string (s : String) :
    (required name .string).Reads room [name] [(name, .string s)] s :=
  reads_member (Decoder.string_reading room s)

end Record

end Json

open Json

/-! ### Courses -/

namespace Course

/-- The members of a course are read in front of whatever else a record has. -/
theorem reads_members {β : Type} (k : CourseId → String → String → String → Credits → β)
    (c : Course) (room : Nat) :
    (k <$> .required "id" .uint64 <*> .required "subject" .string <*> .required "number" .string
      <*> .withDefault "title" .string "" <*> .required "credits" .uint32 : Record β).Reads room
      ["id", "subject", "number", "title", "credits"]
      [("id", .natural c.id.toNat), ("subject", .string c.subject), ("number", .string c.number),
        ("title", .string c.title), ("credits", .natural c.credits.toNat)]
      (k c.id c.subject c.number c.title c.credits) := by
  have htitle : (Record.withDefault "title" .string "").Reads room ["title"]
      [("title", .string c.title)] c.title :=
    Record.reads_member (Decoder.string_reading room c.title)
  have hid := (Record.reads_uint64 room "id" c.id).map k
  -- Names that differ keep the members apart, so the readers follow one another.
  have hnumber := (hid.seq (Record.reads_string room "subject" c.subject) (by decide)).seq
    (Record.reads_string room "number" c.number) (by decide)
  exact (hnumber.seq htitle (by decide)).seq (Record.reads_uint32 room "credits" c.credits)
    (by decide)

theorem decoder_toJson (c : Course) (room : Nat) :
    record.decoder (room + 1) c.toJson.reading = .ok c :=
  (c.reads_members Course.mk room).decoder

theorem isExact_toJson (c : Course) : c.toJson.IsExact :=
  ⟨trivial, trivial, trivial, trivial, trivial, trivial⟩

end Course

/-! ### Majors -/

namespace MajorKey

theorem decoder_toJson (k : MajorKey) (room : Nat) :
    record.decoder (room + 1) k.toJson.reading = .ok k :=
  (((Record.reads_string room "code" k.code).map MajorKey.mk).seq
    (Record.reads_string room "designation" k.designation) (by decide)).decoder

theorem isExact_toJson (k : MajorKey) : k.toJson.IsExact :=
  ⟨trivial, trivial, trivial⟩

/-- A key is read as a member of whatever refers to a major. -/
theorem reads_member (k : MajorKey) (name : String) (room : Nat) :
    (Record.required name record.decoder).Reads (room + 1) [name] [(name, k.toJson)] k :=
  Record.reads_member (k.decoder_toJson room)

end MajorKey

namespace Major

theorem decoder_toJson (m : Major) (room : Nat) :
    record.decoder (room + 2) m.toJson.reading = .ok m := by
  have hkey := (m.key.reads_member "key" room).map Major.mk
  have hname := hkey.seq (Record.reads_string (room + 1) "name" m.name) (by decide)
  have htotal := Record.reads_uint32 (room + 1) "total_credits_required" m.totalCreditsRequired
  exact (hname.seq htotal (by decide)).decoder

theorem isExact_toJson (m : Major) : m.toJson.IsExact :=
  ⟨m.key.isExact_toJson, trivial, trivial, trivial⟩

end Major

namespace DeclaredMajor

theorem decoder_toJson (d : DeclaredMajor) (room : Nat) :
    record.decoder (room + 2) d.toJson.reading = .ok d := by
  have hmajor := (d.major.reads_member "major" room).map DeclaredMajor.mk
  have hdate : (Record.optional "declared_on" (.parsed Calendar.Date.read?)).Reads (room + 1)
      ["declared_on"]
      (Value.optional "declared_on" d.declaredOn fun date => .string date.text) d.declaredOn :=
    Record.reads_optional (fun _ => Reading.noConfusion)
      fun date => Decoder.parsed_reading date.read?_text (room + 1)
  have hprimary : (Record.withDefault "primary" .boolean false).Reads (room + 1) ["primary"]
      [("primary", .boolean d.primary)] d.primary :=
    Record.reads_member (Decoder.boolean_reading (room + 1) d.primary)
  exact ((hmajor.seq hdate (by decide)).seq hprimary (by decide)).decoder

theorem isExact_toJson (d : DeclaredMajor) : d.toJson.IsExact := by
  refine Value.membersAreExact_append.mpr ⟨Value.membersAreExact_append.mpr ⟨?_, ?_⟩, ?_⟩
  · exact ⟨d.major.isExact_toJson, trivial⟩
  · exact Value.membersAreExact_optional "declared_on" fun _ => trivial
  · exact ⟨trivial, trivial⟩

end DeclaredMajor

/-! ### Requirements -/

namespace Requirement

theorem decoder_toJson (r : Requirement) (room : Nat) :
    record.decoder (room + 3) r.toJson.reading = .ok r := by
  have hid := (Record.reads_uint64 (room + 2) "id" r.id).map Requirement.mk
  have hname := (hid.seq (r.major.reads_member "major" (room + 1)) (by decide)).seq
    (Record.reads_string (room + 2) "name" r.name) (by decide)
  have hdescription : (Record.optional "description" .string).Reads (room + 2) ["description"]
      (Value.optional "description" r.description .string) r.description :=
    Record.reads_optional (fun _ => Reading.noConfusion) (Decoder.string_reading (room + 2))
  have hcredits : (Record.optional "min_credits" .uint32).Reads (room + 2) ["min_credits"]
      (Value.optional "min_credits" r.minCredits fun n => .natural n.toNat) r.minCredits :=
    Record.reads_optional (fun _ => Reading.noConfusion) (Decoder.uint32_reading (room + 2))
  have hcourses : (Record.withDefault "courses" (.list Course.record.decoder) []).Reads (room + 2)
      ["courses"] [("courses", .array (r.courses.map Course.toJson))] r.courses :=
    Record.reads_member (Decoder.list_reading fun c _ => c.decoder_toJson room)
  exact (((hname.seq hdescription (by decide)).seq hcredits (by decide)).seq hcourses
    (by decide)).decoder

theorem isExact_toJson (r : Requirement) : r.toJson.IsExact := by
  refine Value.membersAreExact_append.mpr ⟨Value.membersAreExact_append.mpr
    ⟨Value.membersAreExact_append.mpr ⟨?_, ?_⟩, ?_⟩, ?_⟩
  · exact ⟨trivial, r.major.isExact_toJson, trivial, trivial⟩
  · exact Value.membersAreExact_optional "description" fun _ => trivial
  · exact Value.membersAreExact_optional "min_credits" fun _ => trivial
  · exact ⟨Value.areExact_iff.mpr (List.forall_mem_map.mpr fun c _ => c.isExact_toJson), trivial⟩

end Requirement

namespace RequirementMode

/-- The kind comes first in a written mode. -/
theorem ofMembers_kind {name : String} {kind : Kind} (h : Kind.named name = some kind) (room : Nat)
    (rest : List (String × Value)) :
    ofMembers room none [] (Value.membersReading (("kind", .string name) :: rest)) =
      ofMembers room (some kind) [] (Value.membersReading rest) := by
  have hkind : Kind.decoder room (Value.string name).reading = .ok kind :=
    Decoder.parsed_reading h room
  rw [Value.membersReading, ofMembers, stringText_escaped]
  simp only [bind, Except.bind, if_true, hkind]

/-- The credits of a threshold are read for what they are, and kept until the object ends. -/
theorem ofMembers_minCredits (kind : Kind) (credits : UInt32) (room : Nat) :
    ofMembers room (some kind) [] (Value.membersReading [("min_credits", .natural credits.toNat)]) =
      .ok (kind, [("min_credits", (Value.natural credits.toNat).reading)]) := by
  have hlt : credits.toNat < UInt64.size := Nat.lt_trans credits.toNat_lt (by decide)
  have hany : (Value.natural credits.toNat).reading.readAny room = .ok () := by
    rw [Value.reading, Reading.readAny, Numeral.overflows_ofNat hlt]
    rfl
  have hname : ¬"min_credits" = "kind" := by decide
  rw [Value.membersReading, ofMembers, stringText_escaped]
  simp only [bind, Except.bind, if_neg hname, hany]
  rfl

theorem decoder_toJson (m : RequirementMode) (room : Nat) :
    decoder (room + 1) m.toJson.reading = .ok m := by
  cases m with
  | enumeration =>
    have hkind : Kind.named "enumeration" = some .enumeration := rfl
    rw [toJson, Value.reading, decoder, ofMembers_kind hkind]
    rfl
  | creditThreshold credits =>
    have hkind : Kind.named "credit_threshold" = some .creditThreshold := rfl
    have hcredits : ofKind room [("min_credits", (Value.natural credits.toNat).reading)]
        .creditThreshold = (Decoder.uint32 room (Value.natural credits.toNat).reading).map
          .creditThreshold := rfl
    rw [toJson, Value.reading, decoder, ofMembers_kind hkind, ofMembers_minCredits]
    exact hcredits.trans (by rw [Decoder.uint32_reading]; rfl)

theorem isExact_toJson (m : RequirementMode) : m.toJson.IsExact := by
  cases m with
  | creditThreshold => exact ⟨trivial, trivial, trivial⟩
  | enumeration => exact ⟨trivial, trivial⟩

end RequirementMode

/-! ### Prerequisites -/

namespace Prerequisite.FlatSpec

theorem decoder_toJson (s : FlatSpec) (room : Nat) :
    record.decoder (room + 2) s.toJson.reading = .ok s := by
  -- The operator is written under the first of the two names that it may come by.
  have hoperator : (Record.member ["type", "operator"] .string none).Reads (room + 1)
      ["type", "operator"] [("type", .string s.operator)] s.operator :=
    Record.reads_member_of_mem (by decide) (Decoder.string_reading (room + 1) s.operator)
  have hcourses : (Record.withDefault "courseIds" (.list .uint64) []).Reads (room + 1)
      ["courseIds"] [("courseIds", .array (s.courseIds.map fun id => .natural id.toNat))]
      s.courseIds :=
    Record.reads_member (Decoder.list_reading fun id _ => Decoder.uint64_reading room id)
  exact ((hoperator.map FlatSpec.mk).seq hcourses (by decide)).decoder

theorem isExact_toJson (s : FlatSpec) : s.toJson.IsExact :=
  ⟨trivial, Value.areExact_iff.mpr (List.forall_mem_map.mpr fun _ _ => trivial), trivial⟩

end Prerequisite.FlatSpec

/-! ### All records -/

/-- **Records are read back as they were written.**  Courses, majors and their keys, requirements
and their modes, declared majors and flat prerequisites: whatever their texts, numbers, dates and
left-out members are, the text that is written for them decodes to them again. -/
theorem written_records_are_read_back :
    Faithful Course.record.decoder Course.toJson ∧
    Faithful MajorKey.record.decoder MajorKey.toJson ∧
    Faithful Major.record.decoder Major.toJson ∧
    Faithful Requirement.record.decoder Requirement.toJson ∧
    Faithful RequirementMode.decoder RequirementMode.toJson ∧
    Faithful DeclaredMajor.record.decoder DeclaredMajor.toJson ∧
    Faithful Prerequisite.FlatSpec.record.decoder Prerequisite.FlatSpec.toJson := by
  refine ⟨?_, ?_, ?_, ?_, ?_, ?_, ?_⟩
  · exact faithful_of_reading Course.isExact_toJson fun c => c.decoder_toJson 126
  · exact faithful_of_reading MajorKey.isExact_toJson fun k => k.decoder_toJson 126
  · exact faithful_of_reading Major.isExact_toJson fun m => m.decoder_toJson 125
  · exact faithful_of_reading Requirement.isExact_toJson fun r => r.decoder_toJson 124
  · exact faithful_of_reading RequirementMode.isExact_toJson fun m => m.decoder_toJson 126
  · exact faithful_of_reading DeclaredMajor.isExact_toJson fun d => d.decoder_toJson 125
  · exact faithful_of_reading Prerequisite.FlatSpec.isExact_toJson fun s => s.decoder_toJson 125

end Registrar
