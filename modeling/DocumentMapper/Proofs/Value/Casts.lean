import DocumentMapper.Cast
import DocumentMapper.Proofs.Json.Native
import DocumentMapper.Proofs.Value.Moments

/-!
# What casts make

A cast hands on what it was given or makes a value that JSON has. The one exception is the cast to
a date, which puts the moment that it makes on a clock of UTC. So no other cast adds a moment.
-/

namespace DocumentMapper

open Calendar Outcome

variable {reach : Reach} {p : Moment → Prop} {v w : Value} {kind : CastKind}

/-! ## JSON -/

theorem Json.Native.all (h : Native v) : v.All reach p := by
  induction h with
  | null => exact Value.all_null
  | bool b => exact Value.all_bool b
  | int n => exact Value.all_int n
  | float x => exact Value.all_float x
  | text s => exact Value.all_text s
  | list _ ih => exact Value.all_list.2 ih
  | dict _ _ ih => exact Value.all_dict.2 ih

theorem Value.native_of_readJson {s : String} (h : readJson s = .ok w) : Json.Native w :=
  Json.native_of_read (mapError_eq_ok.1 h)

/-! ## Dates -/

theorem Calendar.Moment.offset_of_ofUnix {seconds : Int} {micro : Nat} {m : Moment}
    (h : ofUnix seconds micro = .ok m) : m.offset = some 0 := by
  unfold ofUnix at h
  split at h
  · cases h
  · simp only at h
    split at h
    · rename_i hfound
      cases h
      exact (instant_of_utc? hfound).2
    · split at h <;> cases h

namespace Value

/-- A date that was read is on a clock of UTC. -/
theorem offset_of_parseMoment (h : v.parseMoment = .ok w) :
    w = .null ∨ ∃ m, w = .moment m ∧ m.offset = some 0 := by
  unfold parseMoment at h
  split at h
  · cases h
    exact .inl rfl
  · cases h
    exact .inl rfl
  · obtain ⟨u, hu, h⟩ := bind_eq_ok.1 h
    cases h
    exact .inr ⟨u, rfl, (Moment.sameInUtc_of_toUtc hu).1⟩
  · obtain ⟨u, hu, h⟩ := bind_eq_ok.1 h
    cases h
    exact .inr ⟨u, rfl, Moment.offset_of_ofUnix (mapError_eq_ok.1 hu)⟩
  · obtain ⟨u, hu, h⟩ := bind_eq_ok.1 h
    cases h
    refine .inr ⟨u, rfl, ?_⟩
    unfold Moment.ofUnixFloat at hu
    split at hu
    · split at hu <;> cases hu
    · exact Moment.offset_of_ofUnix (mapError_eq_ok.1 hu)
  · obtain ⟨u, hu, h⟩ := bind_eq_ok.1 h
    cases h
    obtain ⟨m, -, hm⟩ := bind_eq_ok.1 hu
    exact .inr ⟨u, rfl, (Moment.sameInUtc_of_toUtc hm).1⟩

/-! ## All casts -/

theorem number_of_cast (h : v.cast .number = .ok w) :
    (∃ n, w = int n) ∨ ∃ x, w = float x := by
  simp only [cast] at h
  split at h
  · cases h
    exact .inl ⟨0, rfl⟩
  · unfold toNumber at h
    split at h
    · cases h
      exact .inl ⟨_, rfl⟩
    · cases h
      exact .inr ⟨_, rfl⟩
    · obtain ⟨x, -, h⟩ := bind_eq_ok.1 h
      cases h
      unfold wholeOrFloat
      split
      · split
        · exact .inl ⟨_, rfl⟩
        · exact .inr ⟨_, rfl⟩
      · exact .inr ⟨_, rfl⟩

theorem point_of_cast (h : v.cast .location = .ok w) :
    w = .null ∨ ∃ x y : Float,
      w = ofEntries [("type", text "Point"), ("coordinates", list [float x, float y])] := by
  simp only [cast] at h
  split at h
  · cases h
    exact .inl rfl
  · unfold toLocation at h
    obtain ⟨first, -, h⟩ := bind_eq_ok.1 h
    obtain ⟨x, -, h⟩ := bind_eq_ok.1 h
    obtain ⟨second, -, h⟩ := bind_eq_ok.1 h
    obtain ⟨y, -, h⟩ := bind_eq_ok.1 h
    cases h
    exact .inr ⟨x, y, rfl⟩

theorem native_point (x y : Float) :
    Json.Native
      (ofEntries [("type", text "Point"), ("coordinates", list [float x, float y])]) := by
  have hcoordinates : Json.Native (list [float x, float y]) :=
    .list (List.forall_mem_cons.2 ⟨.float x, List.forall_mem_singleton.2 (.float y)⟩)
  exact Json.native_cons.2 ⟨⟨_, rfl⟩, .text _, Json.native_cons.2 ⟨⟨_, rfl⟩, hcoordinates, .nil⟩⟩

theorem object_of_cast (h : v.cast .object = .ok w) : w = v ∨ Json.Native w := by
  simp only [cast] at h
  split at h
  · cases h
    exact .inr .nil
  · split at h
    · next s _ =>
      cases h
      cases hread : readJson s with
      | error e => exact .inr .nil
      | ok u => exact .inr (native_of_readJson hread)
    · cases h
      exact .inl rfl

theorem array_of_cast (h : v.cast .array = .ok w) : w = v ∨ Json.Native w := by
  simp only [cast] at h
  split at h
  · cases h
    exact .inr (.list (List.forall_mem_nil _))
  · split at h
    · exact .inr (native_of_readJson h)
    · cases h
      exact .inl rfl

/-- What a cast makes is what it was given, or a date, or a value that JSON has; and only casts to
objects and to arrays make lists. -/
theorem cast_cases (h : v.cast kind = .ok w) :
    w = v ∨ (kind = .date ∧ ∃ m, w = .moment m ∧ m.offset = some 0) ∨
      Json.Native w ∧ (w.isList = false ∨ kind = .object ∨ kind = .array) := by
  cases kind with
  | string =>
    cases h
    exact .inr (.inr ⟨.text _, .inl rfl⟩)
  | integer =>
    simp only [cast] at h
    split at h
    · cases h
      exact .inr (.inr ⟨.int 0, .inl rfl⟩)
    · obtain ⟨n, -, h⟩ := bind_eq_ok.1 h
      cases h
      exact .inr (.inr ⟨.int n, .inl rfl⟩)
  | float =>
    simp only [cast] at h
    split at h
    · cases h
      exact .inr (.inr ⟨.float 0, .inl rfl⟩)
    · obtain ⟨x, -, h⟩ := bind_eq_ok.1 h
      cases h
      exact .inr (.inr ⟨.float x, .inl rfl⟩)
  | number =>
    obtain ⟨n, rfl⟩ | ⟨x, rfl⟩ := number_of_cast h
    · exact .inr (.inr ⟨.int n, .inl rfl⟩)
    · exact .inr (.inr ⟨.float x, .inl rfl⟩)
  | boolean =>
    cases h
    exact .inr (.inr ⟨.bool _, .inl rfl⟩)
  | date =>
    obtain rfl | ⟨m, rfl, hutc⟩ := offset_of_parseMoment h
    · exact .inr (.inr ⟨.null, .inl rfl⟩)
    · exact .inr (.inl ⟨rfl, m, rfl, hutc⟩)
  | location =>
    obtain rfl | ⟨x, y, rfl⟩ := point_of_cast h
    · exact .inr (.inr ⟨.null, .inl rfl⟩)
    · exact .inr (.inr ⟨native_point x y, .inl rfl⟩)
  | object =>
    obtain rfl | hnative := object_of_cast h
    · exact .inl rfl
    · exact .inr (.inr ⟨hnative, .inr (.inl rfl)⟩)
  | array =>
    obtain rfl | hnative := array_of_cast h
    · exact .inl rfl
    · exact .inr (.inr ⟨hnative, .inr (.inr rfl)⟩)
  | any =>
    cases h
    exact .inl rfl

/-- A cast makes a settled value of a settled one, if a date that it reads shows one of the
instants. -/
theorem Settled.cast {I : Set Int} (hv : v.Settled I)
    (hdate : kind = .date → ∀ m, v.parseMoment = .ok (.moment m) → m.instant ∈ I)
    (h : v.cast kind = .ok w) : w.Settled I := by
  obtain rfl | ⟨rfl, m, rfl, hutc⟩ | ⟨hnative, -⟩ := cast_cases h
  · exact hv
  · exact all_moment.2 ⟨hutc, hdate rfl m h⟩
  · exact hnative.all

end Value

end DocumentMapper
