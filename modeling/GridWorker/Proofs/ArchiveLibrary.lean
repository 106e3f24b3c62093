import GridWorker.Archive.Plain
import GridWorker.Proofs.ArchiveReading
import GridWorker.Proofs.ChainsAndTables

/-! # What is relied on of an archive library

An archive that was finished without an error holds the files that were written into it, and a
file within the limits of the format can be written. The library without compression does both.
-/
namespace GridWorker
namespace ZipLibrary

def store (z : ZipLibrary) (files : List ZipFile) : z.Session Unit := do
  files.forM z.add
  z.finish

/-- Files with different names, none of them too long, that one archive can hold. -/
structure Fits (files : List ZipFile) : Prop where
  distinct : (files.map ZipFile.name).Nodup
  short : ∀ f ∈ files, f.name.utf8ByteSize < 0x10000
  few : files.length < 0x10000

structure Reliable (z : ZipLibrary) : Prop where
  /-- An archive that was finished without an error is read back as the files written. -/
  holds : ∀ files bytes, Fits files → z.outcome (z.store files) = (.ok (),bytes) →
    z.members? bytes = some (files.map ZipFile.member)
  /-- A file below 4 GiB is written without an error. -/
  accepts : ∀ f, Fits [f] → f.content.length < 0x100000000 →
    (z.outcome (z.store [f])).1 = .ok ()

/-! ## The library without compression -/

def plainAdd (f : ZipFile) : PlainSession Unit := do
  plainStart f.name f.options
  plainWrite f.content

def plainEntry (f : ZipFile) : Entry :=
  ⟨f.name,0o100000 + f.options.permissions % 0o1000,f.options.method,.first,f.content⟩

/-- A file of a permitted name is added, unless it is too long. -/
theorem plainAdd_run {f : ZipFile} (short : f.name.utf8ByteSize < 0x10000) (es : List Entry) :
    (plainAdd f).run.run es =
      if 0x100000000 ≤ f.content.length then
        (.error "Large file option has not been set",{ plainEntry f with content := [] } :: es)
      else (.ok (),plainEntry f :: es) := by
  have hstart : (plainStart f.name f.options).run.run es =
      (.ok (),{ plainEntry f with content := [] } :: es) := by
    rw [plainStart,if_neg (Nat.not_le.mpr short)]
    rfl
  have hsize : List.length ([] : Bytes) + f.content.length = f.content.length := Nat.zero_add _
  refine (run_then (plainStart f.name f.options) (plainWrite f.content) es).trans ?_
  rw [hstart]
  change ((if 0x100000000 ≤ List.length ([] : Bytes) + f.content.length then
      throw "Large file option has not been set" else set (plainEntry f :: es) :
    PlainSession Unit).run.run ({ plainEntry f with content := [] } :: es)) = _
  rw [hsize]
  by_cases hlarge : 0x100000000 ≤ f.content.length
  · rw [if_pos hlarge,if_pos hlarge]
    rfl
  · rw [if_neg hlarge,if_neg hlarge]
    rfl

theorem plainAdd_all {files : List ZipFile} (short : ∀ f ∈ files, f.name.utf8ByteSize < 0x10000)
    {es es' : List Entry} (h : (files.forM plainAdd).run.run es = (.ok (),es')) :
    (∀ f ∈ files, f.content.length < 0x100000000) ∧ es' = (files.map plainEntry).reverse ++ es := by
  induction files generalizing es with
  | nil =>
    injection h with _ hes
    exact ⟨nofun,hes.symm⟩
  | cons f files ih =>
    have hrun := (run_then (plainAdd f) (files.forM plainAdd) es).symm.trans h
    rw [plainAdd_run (short f List.mem_cons_self)] at hrun
    by_cases hlarge : 0x100000000 ≤ f.content.length
    · rw [if_pos hlarge] at hrun
      injection hrun with hresult
      contradiction
    rw [if_neg hlarge] at hrun
    obtain ⟨hsmall,hes⟩ := ih (fun g hg => short g (List.mem_cons_of_mem f hg)) hrun
    refine ⟨List.forall_mem_cons.mpr ⟨Nat.lt_of_not_le hlarge,hsmall⟩,?_⟩
    rw [hes,List.map_cons,List.reverse_cons,List.append_assoc]
    rfl

theorem plainEntry_fits {f : ZipFile} (short : f.name.utf8ByteSize < 0x10000)
    (small : f.content.length < 0x100000000) : (plainEntry f).Fits where
  name := by
    have hname : f.name.toUTF8.toList.length = f.name.utf8ByteSize := by
      rw [toList_eq_data]
      rfl
    exact hname ▸ short
  mode := by
    have hpermissions := Nat.mod_lt f.options.permissions (by decide : 0 < 0o1000)
    change 0o100000 + f.options.permissions % 0o1000 < 0x10000
    omega
  date := (by decide : Stamp.first.date < 0x10000)
  time := (by decide : Stamp.first.time < 0x10000)
  content := small

theorem plainFinish_run (es : List Entry) :
    plainFinish.run.run es =
      (if 0x10000 ≤ es.length then .error "Too many files" else .ok (),es) := by
  change (if 0x10000 ≤ es.length then throw "Too many files" else pure () :
    PlainSession Unit).run.run es = _
  split <;> rfl

/-- The members of an archive are the files whose entries it has. -/
theorem plain_members {files : List ZipFile} (fits : Fits files)
    (small : ∀ f ∈ files, f.content.length < 0x100000000) :
    plain.members? (Archive.toBytes ⟨files.map plainEntry,[]⟩) =
      some (files.map ZipFile.member) := by
  have hfits : ∀ e ∈ files.map plainEntry, e.Fits := by
    intro e he
    obtain ⟨f,hf,rfl⟩ := List.mem_map.mp he
    exact plainEntry_fits (fits.short f hf) (small f hf)
  have hread := Archive.ofBytes?_toBytes ⟨files.map plainEntry,[]⟩ hfits
    (by rw [List.length_map]; exact fits.few) (by decide : 0 < 0x10000)
  change (Archive.ofBytes? _).map _ = _
  rw [hread,Option.map_some,List.map_map]
  refine congrArg some (List.map_congr_left fun f _ => ?_)
  have hmode : (0o100000 + f.options.permissions % 0o1000) % 0o1000 =
      f.options.permissions % 0o1000 := by omega
  change (⟨f.name,(0o100000 + f.options.permissions % 0o1000) % 0o1000,f.content⟩ : ZipMember) = _
  rw [hmode]
  rfl

theorem plain_outcome {files : List ZipFile} {r : Except String Unit} {es : List Entry}
    (h : (files.forM plainAdd).run.run [] = (r,es)) :
    plain.outcome (plain.store files) =
      (r.bind fun _ => if 0x10000 ≤ es.length then .error "Too many files" else .ok (),
        Archive.toBytes ⟨es.reverse,[]⟩) := by
  have hstore := run_then (files.forM plainAdd) plainFinish []
  rw [h] at hstore
  have hrun : (plain.store files).run.run [] =
      (r.bind fun _ => if 0x10000 ≤ es.length then .error "Too many files" else .ok (),es) := by
    refine hstore.trans ?_
    cases r with
    | error why => rfl
    | ok _ => exact plainFinish_run es
  exact congrArg (fun p => (p.1,Archive.toBytes ⟨p.2.reverse,[]⟩)) hrun

/-- The library without compression can be relied on. -/
theorem plain_reliable : plain.Reliable where
  holds := by
    intro files bytes fits h
    rcases hrun : (files.forM plainAdd).run.run [] with ⟨why | _,es⟩ <;>
      rw [plain_outcome hrun] at h
    · injection h with hresult
      contradiction
    · obtain ⟨hsmall,hes⟩ := plainAdd_all fits.short hrun
      injection h with _ hbytes
      rw [← hbytes,hes,List.append_nil,List.reverse_reverse]
      exact plain_members fits hsmall
  accepts := by
    intro f fits small
    have hadd := plainAdd_run (fits.short f List.mem_cons_self) []
    rw [if_neg (Nat.not_le.mpr small)] at hadd
    have hrun : ([f].forM plainAdd).run.run [] = (.ok (),[plainEntry f]) := by
      refine (run_then (plainAdd f) (pure ()) []).trans ?_
      rw [hadd]
      rfl
    rw [plain_outcome hrun]
    rfl

end ZipLibrary
end GridWorker
