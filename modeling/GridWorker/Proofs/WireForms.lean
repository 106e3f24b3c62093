import GridWorker.Proofs.JsonText
import GridWorker.Response
import GridWorker.Workload

/-! # Responses and workloads on the wire

A status is a name or an object with that name for its one key; a response and a workload are
objects with their fields among the members, or lists of just their fields in order. Whatever
the form, decoding finds the one value that it stands for, and the encoding of a value is an
object that stands for it.
-/
namespace GridWorker

/-- The words of 64 bits are the whole numbers from 0 to the largest one. -/
theorem Json.exists_ofUInt64_iff {v : Json} : (∃ n, v = .ofUInt64 n) ↔
    ∃ w : Whole, v = .number (.whole w) ∧ 0 ≤ w.val ∧ w.val ≤ 0xffffffffffffffff := by
  constructor
  · rintro ⟨n,rfl⟩
    have hmost := n.toNat_lt
    exact ⟨.ofUInt64 n,rfl,Int.natCast_nonneg _,by simp only [Whole.ofUInt64]; omega⟩
  · rintro ⟨w,rfl,hleast,hmost⟩
    have hvalue : (UInt64.ofNat w.val.toNat).toNat = w.val.toNat :=
      UInt64.toNat_ofNat_of_lt' (by simp only [UInt64.size]; omega)
    refine ⟨UInt64.ofNat w.val.toNat,congrArg (fun w => Json.number (.whole w)) (Whole.ext ?_)⟩
    simp only [Whole.ofUInt64,hvalue]
    omega

theorem Whole.toUInt64?_eq_some_iff {w : Whole} {n : UInt64} :
    w.toUInt64? = some n ↔ w = .ofUInt64 n := by
  constructor
  · intro h
    unfold toUInt64? at h
    split at h
    · obtain rfl := Option.some.inj h
      have hmost := w.lt_max
      have hvalue : (UInt64.ofNat w.val.toNat).toNat = w.val.toNat :=
        UInt64.toNat_ofNat_of_lt' (by simp only [UInt64.size]; omega)
      refine Whole.ext ?_
      simp only [ofUInt64,hvalue]
      omega
    · cases h
  · rintro rfl
    have hleast : 0 ≤ (ofUInt64 n).val := Int.natCast_nonneg _
    rw [toUInt64?,if_pos hleast]
    simp [ofUInt64]

namespace Status

theorem ofName?_eq_some_iff {n : String} {s : Status} : ofName? n = some s ↔ n = s.name := by
  constructor
  · intro h
    unfold ofName? at h
    split at h <;> first | (obtain rfl := Option.some.inj h; rfl) | cases h
  · rintro rfl
    cases s <;> rfl

/-- A status is decoded from its name, or from an object that maps its name to `null`. -/
theorem ofJson?_eq_some_iff {v : Json} {s : Status} :
    ofJson? v = some s ↔ v = .string s.name ∨ v = .object [(s.name,.null)] := by
  constructor
  · intro h
    unfold ofJson? at h
    split at h
    · rw [ofName?_eq_some_iff.mp h]
      exact Or.inl rfl
    · rw [ofName?_eq_some_iff.mp h]
      exact Or.inr rfl
    · cases h
  · rintro (rfl | rfl)
    · exact ofName?_eq_some_iff.mpr rfl
    · exact ofName?_eq_some_iff.mpr rfl

theorem ofJson?_toJson (s : Status) : ofJson? s.toJson = some s := ofName?_eq_some_iff.mpr rfl

end Status

namespace Response

theorem field?_eq_some_iff {v : Option Json} {s : String} :
    field? v = some s ↔ v = some (.string s) := by
  constructor
  · intro h
    unfold field? at h
    split at h
    · rw [Option.some.inj h]
    · cases h
  · rintro rfl
    rfl

/-- An object is read through its three fields alone, as the list of them is. -/
theorem ofJson?_object {ms : Members} {result time check : Json}
    (hresult : ms.lookup "result" = some result) (htime : ms.lookup "compute_time_ms" = some time)
    (hcheck : ms.lookup "check" = some check) :
    ofJson? (.object ms) = ofJson? (.array [result,time,check]) := by
  simp only [ofJson?,hresult,htime,hcheck,Option.bind_some]

theorem ofJson?_array_iff {result time check : Json} {r : Response} :
    ofJson? (.array [result,time,check]) = some r ↔ Status.ofJson? result = some r.result ∧
      time = .string r.computeTimeMs ∧ check = .string r.check := by
  constructor
  · intro h
    obtain ⟨s,hs,h⟩ := Option.bind_eq_some_iff.mp h
    obtain ⟨t,ht,h⟩ := Option.bind_eq_some_iff.mp h
    obtain ⟨c,hc,h⟩ := Option.bind_eq_some_iff.mp h
    obtain rfl := Option.some.inj h
    exact ⟨hs,Option.some.inj (field?_eq_some_iff.mp ht),
      Option.some.inj (field?_eq_some_iff.mp hc)⟩
  · rintro ⟨hresult,rfl,rfl⟩
    simp only [ofJson?,hresult,field?]
    rfl

theorem ofJson?_object_iff {ms : Members} {r : Response} : ofJson? (.object ms) = some r ↔
    (∃ result, ms.lookup "result" = some result ∧ Status.ofJson? result = some r.result) ∧
      ms.lookup "compute_time_ms" = some (.string r.computeTimeMs) ∧
      ms.lookup "check" = some (.string r.check) := by
  constructor
  · intro h
    obtain ⟨s,hs,h⟩ := Option.bind_eq_some_iff.mp h
    obtain ⟨t,ht,h⟩ := Option.bind_eq_some_iff.mp h
    obtain ⟨c,hc,h⟩ := Option.bind_eq_some_iff.mp h
    obtain rfl := Option.some.inj h
    obtain ⟨result,hresult,hs⟩ := Option.bind_eq_some_iff.mp hs
    exact ⟨⟨result,hresult,hs⟩,field?_eq_some_iff.mp ht,field?_eq_some_iff.mp hc⟩
  · rintro ⟨⟨result,hresult,hs⟩,htime,hcheck⟩
    rw [ofJson?_object hresult htime hcheck]
    exact ofJson?_array_iff.mpr ⟨hs,rfl,rfl⟩

theorem ofJson?_eq_some_iff {v : Json} {r : Response} : ofJson? v = some r ↔
    (∃ ms result, v = .object ms ∧ ms.lookup "result" = some result ∧
      Status.ofJson? result = some r.result ∧
      ms.lookup "compute_time_ms" = some (.string r.computeTimeMs) ∧
      ms.lookup "check" = some (.string r.check)) ∨
    ∃ result, v = .array [result,.string r.computeTimeMs,.string r.check] ∧
      Status.ofJson? result = some r.result := by
  constructor
  · intro h
    cases v with
    | object ms =>
      obtain ⟨⟨result,hresult,hs⟩,hfields⟩ := ofJson?_object_iff.mp h
      exact Or.inl ⟨ms,result,rfl,hresult,hs,hfields⟩
    | array items =>
      match items,h with
      | [result,time,check],h =>
        obtain ⟨hs,rfl,rfl⟩ := ofJson?_array_iff.mp h
        exact Or.inr ⟨result,rfl,hs⟩
    | _ => cases h
  · rintro (⟨ms,result,rfl,hresult,hs,hfields⟩ | ⟨result,rfl,hs⟩)
    · exact ofJson?_object_iff.mpr ⟨⟨result,hresult,hs⟩,hfields⟩
    · exact ofJson?_array_iff.mpr ⟨hs,rfl,rfl⟩

/-- The encoding of a response, its keys in order. -/
theorem toJson_eq (r : Response) : r.toJson = .object [("check",.string r.check),
    ("compute_time_ms",.string r.computeTimeMs),("result",.string r.result.name)] := by
  simp only [toJson,members,Status.toJson,Json.record,Members.sorted,Members.insert,
    List.foldl_cons,List.foldl_nil,String.reduceLT,String.reduceEq,if_true,if_false]

theorem ofJson?_toJson (r : Response) : ofJson? r.toJson = some r := by
  rw [toJson_eq]
  exact ofJson?_object_iff.mpr ⟨⟨_,rfl,r.result.ofJson?_toJson⟩,rfl,rfl⟩

theorem read?_written (r : Response) : Json.read? r.written.text = some r.toJson :=
  Json.read?_text ⟨trivial,trivial,trivial,trivial⟩ (Nat.le_of_ble_eq_true rfl)

end Response

namespace Workload

theorem field?_eq_some_iff {v : Option Json} {n : UInt64} :
    field? v = some n ↔ v = some (.ofUInt64 n) := by
  constructor
  · intro h
    unfold field? at h
    split at h
    · rw [Whole.toUInt64?_eq_some_iff.mp h]
      rfl
    · cases h
  · rintro rfl
    exact Whole.toUInt64?_eq_some_iff.mpr rfl

/-- An object is read through its mode and the fields of that mode, as the list of them is. -/
theorem ofJson?_object_sleep {ms : Members} {d : Json}
    (hmode : ms.lookup "mode" = some (.string "sleep"))
    (hd : ms.lookup "duration_ms" = some d) :
    ofJson? (.object ms) = ofJson? (.array [.string "sleep",d]) := by
  simp only [ofJson?,hmode,hd]

theorem ofJson?_object_compute {ms : Members} {ram iterations : Json}
    (hmode : ms.lookup "mode" = some (.string "compute"))
    (hram : ms.lookup "ram_limit_gb" = some ram)
    (hiterations : ms.lookup "iter_limit_millions" = some iterations) :
    ofJson? (.object ms) = ofJson? (.array [.string "compute",ram,iterations]) := by
  simp only [ofJson?,hmode,Limit.name,hram,hiterations]

theorem holds_members_sleep {ms : Members} {n : UInt64} :
    (∀ m ∈ (sleep n).members, ms.lookup m.1 = some m.2) ↔
      ms.lookup "mode" = some (.string "sleep") ∧ ms.lookup "duration_ms" = some (.ofUInt64 n) := by
  simp only [members,List.forall_mem_cons,List.not_mem_nil,false_implies,implies_true,and_true]

theorem holds_members_compute {ms : Members} {ram iterations : UInt64} :
    (∀ m ∈ (compute ram iterations).members, ms.lookup m.1 = some m.2) ↔
      ms.lookup "mode" = some (.string "compute") ∧
      ms.lookup "ram_limit_gb" = some (.ofUInt64 ram) ∧
      ms.lookup "iter_limit_millions" = some (.ofUInt64 iterations) := by
  simp only [members,Limit.name,List.forall_mem_cons,List.not_mem_nil,false_implies,implies_true,
    and_true]

theorem ofJson?_array_members (w : Workload) :
    ofJson? (.array (w.members.map Prod.snd)) = some w := by
  cases w with
  | sleep n => exact congrArg (Option.map sleep) (field?_eq_some_iff.mpr rfl)
  | compute ram iterations =>
    have hram : field? (some (.ofUInt64 ram)) = some ram := field?_eq_some_iff.mpr rfl
    have hiterations : field? (some (.ofUInt64 iterations)) = some iterations :=
      field?_eq_some_iff.mpr rfl
    simp only [members,List.map_cons,List.map_nil,ofJson?,hram,hiterations]
    rfl

/-- Decoding finds a workload in an object that has its members, whatever else it has, and in
the list of what its members hold. -/
theorem ofJson?_eq_some_iff {v : Json} {w : Workload} : ofJson? v = some w ↔
    (∃ ms, v = .object ms ∧ ∀ m ∈ w.members, ms.lookup m.1 = some m.2) ∨
      v = .array (w.members.map Prod.snd) := by
  constructor
  · intro h
    unfold ofJson? at h
    split at h
    · rename_i ms
      split at h
      · rename_i hmode
        obtain ⟨n,hn,rfl⟩ := Option.map_eq_some_iff.mp h
        have hd := field?_eq_some_iff.mp hn
        exact Or.inl ⟨ms,rfl,holds_members_sleep.mpr ⟨hmode,hd⟩⟩
      · rename_i hmode
        obtain ⟨ram,hram,h⟩ := Option.bind_eq_some_iff.mp h
        obtain ⟨iterations,hiterations,h⟩ := Option.bind_eq_some_iff.mp h
        obtain rfl := Option.some.inj h
        exact Or.inl ⟨ms,rfl,holds_members_compute.mpr
          ⟨hmode,field?_eq_some_iff.mp hram,field?_eq_some_iff.mp hiterations⟩⟩
      · cases h
    · obtain ⟨n,hn,rfl⟩ := Option.map_eq_some_iff.mp h
      rw [Option.some.inj (field?_eq_some_iff.mp hn)]
      exact Or.inr rfl
    · obtain ⟨ram,hram,h⟩ := Option.bind_eq_some_iff.mp h
      obtain ⟨iterations,hiterations,h⟩ := Option.bind_eq_some_iff.mp h
      obtain rfl := Option.some.inj h
      rw [Option.some.inj (field?_eq_some_iff.mp hram),
        Option.some.inj (field?_eq_some_iff.mp hiterations)]
      exact Or.inr rfl
    · cases h
  · rintro (⟨ms,rfl,hms⟩ | rfl)
    · rw [← ofJson?_array_members w]
      cases w with
      | sleep n =>
        obtain ⟨hmode,hd⟩ := holds_members_sleep.mp hms
        exact ofJson?_object_sleep hmode hd
      | compute ram iterations =>
        obtain ⟨hmode,hram,hiterations⟩ := holds_members_compute.mp hms
        exact ofJson?_object_compute hmode hram hiterations
    · exact ofJson?_array_members w

/-- The encodings of workloads, their keys in order. -/
theorem toJson_sleep (n : UInt64) : (sleep n).toJson =
    .object [("duration_ms",.ofUInt64 n),("mode",.string "sleep")] := by
  simp only [toJson,members,Json.record,Members.sorted,Members.insert,List.foldl_cons,
    List.foldl_nil,String.reduceLT,String.reduceEq,if_true,if_false]

theorem toJson_compute (ram iterations : UInt64) : (compute ram iterations).toJson =
    .object [("iter_limit_millions",.ofUInt64 iterations),("mode",.string "compute"),
      ("ram_limit_gb",.ofUInt64 ram)] := by
  simp only [toJson,members,Limit.name,Json.record,Members.sorted,Members.insert,List.foldl_cons,
    List.foldl_nil,String.reduceLT,String.reduceEq,if_true,if_false]

theorem ofJson?_toJson (w : Workload) : ofJson? w.toJson = some w := by
  cases w with
  | sleep n =>
    rw [toJson_sleep]
    exact ofJson?_eq_some_iff.mpr (Or.inl ⟨_,rfl,holds_members_sleep.mpr ⟨rfl,rfl⟩⟩)
  | compute ram iterations =>
    rw [toJson_compute]
    exact ofJson?_eq_some_iff.mpr (Or.inl ⟨_,rfl,holds_members_compute.mpr ⟨rfl,rfl,rfl⟩⟩)

theorem read?_written (w : Workload) : Json.read? w.written.text = some w.toJson := by
  cases w with
  | sleep n => exact Json.read?_text ⟨trivial,trivial,trivial⟩ (Nat.le_of_ble_eq_true rfl)
  | compute ram iterations =>
    exact Json.read?_text ⟨trivial,trivial,trivial,trivial⟩ (Nat.le_of_ble_eq_true rfl)

end Workload

/-- Statuses, responses and workloads are decoded from their encodings, as values and as texts.
They are decoded from just the forms that are listed, objects with any other members beside the
fields and lists of the fields alone; the two forms of the same fields stand for the same, and
whatever was decoded is encoded as one object, which stands for it again. -/
theorem wire_forms_decode_to_one_value :
    (∀ (v : Json) (s : Status), Status.ofJson? v = some s ↔
      v = .string s.name ∨ v = .object [(s.name,.null)]) ∧
    (∀ (v : Json) (r : Response), Response.ofJson? v = some r ↔
      (∃ ms result, v = .object ms ∧ ms.lookup "result" = some result ∧
        Status.ofJson? result = some r.result ∧
        ms.lookup "compute_time_ms" = some (.string r.computeTimeMs) ∧
        ms.lookup "check" = some (.string r.check)) ∨
      ∃ result, v = .array [result,.string r.computeTimeMs,.string r.check] ∧
        Status.ofJson? result = some r.result) ∧
    (∀ (v : Json) (n : UInt64), Workload.ofJson? v = some (.sleep n) ↔
      (∃ ms, v = .object ms ∧ ms.lookup "mode" = some (.string "sleep") ∧
        ms.lookup "duration_ms" = some (.ofUInt64 n)) ∨
      v = .array [.string "sleep",.ofUInt64 n]) ∧
    (∀ (v : Json) (ram iterations : UInt64), Workload.ofJson? v = some (.compute ram iterations) ↔
      (∃ ms, v = .object ms ∧ ms.lookup "mode" = some (.string "compute") ∧
        ms.lookup "ram_limit_gb" = some (.ofUInt64 ram) ∧
        ms.lookup "iter_limit_millions" = some (.ofUInt64 iterations)) ∨
      v = .array [.string "compute",.ofUInt64 ram,.ofUInt64 iterations]) ∧
    (∀ v : Json, (∃ n, v = .ofUInt64 n) ↔
      ∃ w : Whole, v = .number (.whole w) ∧ 0 ≤ w.val ∧ w.val ≤ 0xffffffffffffffff) ∧
    (∀ (ms : Members) (result time check : Json), ms.lookup "result" = some result →
      ms.lookup "compute_time_ms" = some time → ms.lookup "check" = some check →
      Response.ofJson? (.object ms) = Response.ofJson? (.array [result,time,check])) ∧
    (∀ (ms : Members) (d : Json), ms.lookup "mode" = some (.string "sleep") →
      ms.lookup "duration_ms" = some d →
      Workload.ofJson? (.object ms) = Workload.ofJson? (.array [.string "sleep",d])) ∧
    (∀ (ms : Members) (ram iterations : Json), ms.lookup "mode" = some (.string "compute") →
      ms.lookup "ram_limit_gb" = some ram → ms.lookup "iter_limit_millions" = some iterations →
      Workload.ofJson? (.object ms) =
        Workload.ofJson? (.array [.string "compute",ram,iterations])) ∧
    (∀ s : Status, Status.ofJson? s.toJson = some s) ∧
    (∀ r : Response, Response.ofJson? r.toJson = some r ∧
      (Json.read? r.written.text).bind Response.ofJson? = some r ∧
      r.toJson = .object [("check",.string r.check),("compute_time_ms",.string r.computeTimeMs),
        ("result",.string r.result.name)]) ∧
    (∀ w : Workload, Workload.ofJson? w.toJson = some w ∧
      (Json.read? w.written.text).bind Workload.ofJson? = some w ∧
      w.toJson = match w with
        | .sleep n => .object [("duration_ms",.ofUInt64 n),("mode",.string "sleep")]
        | .compute ram iterations => .object [("iter_limit_millions",.ofUInt64 iterations),
          ("mode",.string "compute"),("ram_limit_gb",.ofUInt64 ram)]) := by
  refine ⟨fun _ _ => Status.ofJson?_eq_some_iff,fun _ _ => Response.ofJson?_eq_some_iff,?_,?_,
    fun _ => Json.exists_ofUInt64_iff,fun _ _ _ _ => Response.ofJson?_object,
    fun _ _ => Workload.ofJson?_object_sleep,fun _ _ _ => Workload.ofJson?_object_compute,
    Status.ofJson?_toJson,?_,?_⟩
  · intro v n
    simp only [Workload.ofJson?_eq_some_iff,Workload.holds_members_sleep]
    rfl
  · intro v ram iterations
    simp only [Workload.ofJson?_eq_some_iff,Workload.holds_members_compute]
    rfl
  · intro r
    refine ⟨r.ofJson?_toJson,?_,r.toJson_eq⟩
    rw [r.read?_written,Option.bind_some,r.ofJson?_toJson]
  · intro w
    refine ⟨w.ofJson?_toJson,?_,?_⟩
    · rw [w.read?_written,Option.bind_some,w.ofJson?_toJson]
    · cases w with
      | sleep n => exact Workload.toJson_sleep n
      | compute ram iterations => exact Workload.toJson_compute ram iterations

/-- A response with a foreign member and a nested status, and the same as a list. -/
theorem nested_status_decodes_both_ways :
    let nested : Json := .object [("Failure",.null)]
    let ms : Members := [("check",.string "5"),("compute_time_ms",.string "\u0000"),
      ("mode",.ofUInt64 1),("result",nested)]
    ms.lookup "result" = some nested ∧
      Response.ofJson? (.object ms) = Response.ofJson?
        (.array [nested,.string "\u0000",.string "5"]) ∧
      Response.ofJson? (.object ms) = some ⟨.failure,"\u0000","5"⟩ ∧
      Workload.ofJson? (.object [("duration_ms",.ofUInt64 3),("mode",.string "sleep")]) =
        some (.sleep 3) := by
  intro nested ms
  obtain ⟨-,hresponse,hsleep,-,-,hforms,-⟩ := wire_forms_decode_to_one_value
  exact ⟨rfl,hforms ms nested _ _ rfl rfl rfl,
    (hresponse _ _).mpr (Or.inl ⟨ms,nested,rfl,rfl,rfl,rfl,rfl⟩),
    (hsleep _ _).mpr (Or.inl ⟨_,rfl,rfl,rfl⟩)⟩

end GridWorker
