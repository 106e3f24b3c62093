import GridWorker.Proofs.PackedContents

/-! # Reading archives

An archive is read back as it was written. The local records come first and are read up to the
mark of the directory, the records of the directory up to the mark of the end record; each
record gives its entry and leaves what follows. The fields of an entry must fit their widths.
-/
namespace GridWorker

theorem toList_loop_eq (bs : ByteArray) (i : Nat) (read : Bytes) :
    ByteArray.toList.loop bs i read = read.reverse ++ bs.data.toList.drop i := by
  fun_induction ByteArray.toList.loop bs i read with
  | case1 i read hlt ih =>
    have hlength : i < bs.data.toList.length := hlt
    have hbyte : bs.get! i = bs.data.toList[i] := by
      cases bs
      exact getElem!_pos _ i hlt
    rw [ih,List.drop_eq_getElem_cons hlength,hbyte,List.reverse_cons,List.append_assoc]
    rfl
  | case2 i read hend =>
    rw [List.drop_eq_nil_of_le (Nat.le_of_not_lt hend),List.append_nil]

theorem toList_eq_data (bs : ByteArray) : bs.toList = bs.data.toList := by
  rw [ByteArray.toList,toList_loop_eq,List.reverse_nil,List.nil_append,List.drop_zero]

namespace Archive
open LittleEndian

theorem name?_utf8 (s : String) : name? s.toUTF8.toList = some s := by
  have hbytes : (⟨s.toUTF8.toList.toArray⟩ : ByteArray) = s.toByteArray := by
    rw [toList_eq_data]
    rfl
  rw [name?,hbytes,String.fromUTF8?,dif_pos s.isValidUTF8]
  rfl

end Archive

structure Entry.Fits (e : Entry) : Prop where
  name : e.nameBytes.length < 0x10000
  mode : e.mode < 0x10000
  date : e.modified.date < 0x10000
  time : e.modified.time < 0x10000
  content : e.content.length < 0x100000000

theorem Entry.checksum_mod (e : Entry) : e.checksum % Nat.pow 256 4 = e.checksum :=
  Nat.mod_eq_of_lt (UInt32.toNat_lt _)

theorem Stamp.parts_injective {s s' : Stamp} (h : s.parts = s'.parts) : s = s' := by
  cases s with
  | mk date time =>
    cases s' with
    | mk date' time' =>
      simp only [parts,List.cons.injEq] at h
      have hdate : date = date' := by omega
      have htime : time = time' := by omega
      rw [hdate,htime]

namespace Archive
open LittleEndian

/-- A local record gives its entry, all but the mode, which only the directory states. -/
theorem local?_localRecord (e : Entry) (fits : e.Fits) (rest : Bytes) :
    local? (localRecord e ++ rest) = some ({ e with mode := 0 },rest) := by
  have hfields := fields?_record [(4,localMark),(2,needed),(2,0),(2,e.method.code),
    (2,e.modified.time),(2,e.modified.date),(4,e.checksum),(4,e.packed.length),
    (4,e.content.length),(2,e.nameBytes.length),(2,0)] (e.nameBytes ++ (e.packed ++ rest))
  simp only [List.map_cons,List.map_nil,mod_two_bytes fits.name,mod_two_bytes fits.date,
    mod_two_bytes fits.time,Method.code_mod,Entry.checksum_mod] at hfields
  have hmark : localMark % Nat.pow 256 4 = localMark := rfl
  have hname : bytes? e.nameBytes.length (e.nameBytes ++ (e.packed ++ rest)) =
    some (e.nameBytes,e.packed ++ rest) := bytes?_append _ _
  have htext : name? e.nameBytes = some e.name := name?_utf8 e.name
  have hextra : bytes? (0 % Nat.pow 256 2) (e.packed ++ rest) = some ([],e.packed ++ rest) :=
    bytes?_append [] _
  have hcontent : e.method.unpack? (e.packed.length % Nat.pow 256 4) (e.packed ++ rest) =
    some (e.content,rest) := Method.unpack?_pack e.method e.content rest fits.content
  rw [local?,localRecord,List.append_assoc,List.append_assoc,hfields]
  simp only [Option.bind_eq_bind,Option.bind_some,hmark,ne_eq,not_true,if_false,
    Method.ofCode?_code,hname,htext,hextra,hcontent]
  have hagree : ¬ (¬ ({ e with mode := 0 } : Entry).checksum = e.checksum ∨ False) :=
    fun h => h.elim (fun hchecksum => hchecksum rfl) id
  exact if_neg hagree

/-- A record of the directory gives what the directory states of its entry. -/
theorem listed?_directoryRecord (offset : Nat) (e : Entry) (fits : e.Fits) (rest : Bytes) :
    listed? (directoryRecord offset e ++ rest) = some ((e.name,e.checksum,e.mode),rest) := by
  have hfields := fields?_record [(4,directoryMark),(2,madeBy),(2,needed),(2,0),
    (2,e.method.code),(2,e.modified.time),(2,e.modified.date),(4,e.checksum),
    (4,e.packed.length),(4,e.content.length),(2,e.nameBytes.length),(2,0),(2,0),(2,0),(2,0),
    (4,e.mode * 0x10000),(4,offset)] (e.nameBytes ++ rest)
  simp only [List.map_cons,List.map_nil,mod_two_bytes fits.name,Entry.checksum_mod] at hfields
  have hmark : directoryMark % Nat.pow 256 4 = directoryMark := rfl
  have hname : bytes? e.nameBytes.length (e.nameBytes ++ rest) = some (e.nameBytes,rest) :=
    bytes?_append _ _
  have htext : name? e.nameBytes = some e.name := name?_utf8 e.name
  have hextra : bytes? (0 % Nat.pow 256 2 + 0 % Nat.pow 256 2) rest = some ([],rest) :=
    bytes?_append [] _
  have hmode : e.mode * 0x10000 % Nat.pow 256 4 / 0x10000 = e.mode := by
    have hmode := fits.mode
    change e.mode * 65536 % 4294967296 / 65536 = e.mode
    omega
  rw [listed?,directoryRecord,List.append_assoc,hfields]
  simp only [Option.bind_eq_bind,Option.bind_some,hmark,ne_eq,not_true,if_false,hname,htext,
    hextra,hmode]
  rfl

section Marks
variable {mark : Nat} {bs : Bytes} (begins : encode 4 mark <+: bs)
include begins

/-- Bytes that begin with another mark are no local record. -/
theorem local?_other (other : mark % Nat.pow 256 4 ≠ localMark) : local? bs = none := by
  obtain ⟨rest,rfl⟩ := begins
  rw [local?,fields?_cons]
  cases fields? [2,2,2,2,2,4,4,4,2,2] rest with
  | none => rfl
  | some r =>
    simp only [Option.map_some,Option.bind_eq_bind,Option.bind_some]
    split
    · next hfields =>
      injection hfields with hmark
      rw [if_pos (hmark ▸ other)]
      rfl
    · rfl

theorem listed?_other (other : mark % Nat.pow 256 4 ≠ directoryMark) : listed? bs = none := by
  obtain ⟨rest,rfl⟩ := begins
  rw [listed?,fields?_cons]
  cases fields? [2,2,2,2,2,2,4,4,4,2,2,2,2,2,4,4] rest with
  | none => rfl
  | some r =>
    simp only [Option.map_some,Option.bind_eq_bind,Option.bind_some]
    split
    · next hfields =>
      injection hfields with hmark
      rw [if_pos (hmark ▸ other)]
      rfl
    · rfl

end Marks

theorem endRecord_begins (count size offset : Nat) (comment : Bytes) :
    encode 4 endMark <+: endRecord count size offset comment := by
  rw [endRecord,record,List.flatMap_cons,List.append_assoc]
  exact List.prefix_append _ _

theorem directoryRecord_begins (offset : Nat) (e : Entry) (rest : Bytes) :
    encode 4 directoryMark <+: directoryRecord offset e ++ rest := by
  rw [directoryRecord,record,List.flatMap_cons,List.append_assoc,List.append_assoc]
  exact List.prefix_append _ _

/-- The end record, when it is the last, gives its count and its comment. -/
theorem end?_endRecord (count size offset : Nat) (comment : Bytes) (counted : count < 0x10000)
    (short : comment.length < 0x10000) :
    Archive.end? (endRecord count size offset comment) = some (count,comment) := by
  have hfields := fields?_record [(4,endMark),(2,0),(2,0),(2,count),(2,count),(4,size),
    (4,offset),(2,comment.length)] comment
  have hmark : endMark % Nat.pow 256 4 = endMark := rfl
  simp only [List.map_cons,List.map_nil,mod_two_bytes counted,mod_two_bytes short,hmark]
    at hfields
  rw [end?,endRecord,hfields]
  simp only [Option.bind_eq_bind,Option.bind_some,ne_eq,not_true,or_false,if_false]
  rfl

section Many
variable {α : Type} {one? : Bytes → Option (α × Bytes)}

/-- The front of some bytes is a sequence of records, and what follows it is none. -/
inductive Parts (one? : Bytes → Option (α × Bytes)) : Bytes → List α → Bytes → Prop
  | nil {bs : Bytes} (stop : one? bs = none) : Parts one? bs [] bs
  | cons {bs bs' rest : Bytes} {a : α} {as : List α} (first : one? bs = some (a,bs'))
      (shorter : bs'.length < bs.length) (others : Parts one? bs' as rest) :
      Parts one? bs (a :: as) rest

theorem Parts.many {bs rest : Bytes} {as : List α} (parts : Parts one? bs as rest) (steps : Nat)
    (enough : bs.length ≤ steps) : many one? steps bs = (as,rest) := by
  induction parts generalizing steps with
  | nil stop =>
    cases steps with
    | zero => rfl
    | succ steps => rw [Archive.many,stop]
  | cons first shorter others ih =>
    obtain ⟨steps,rfl⟩ : ∃ k, steps = k + 1 := ⟨steps - 1,by omega⟩
    rw [Archive.many,first]
    simp only [ih steps (by omega)]

end Many

theorem localRecord_length (e : Entry) :
    (localRecord e).length = 30 + e.nameBytes.length + e.packed.length := by
  rw [localRecord,List.length_append,List.length_append]
  simp only [length_record_cons,length_record_nil,Nat.reduceAdd]

theorem directoryRecord_length (offset : Nat) (e : Entry) :
    (directoryRecord offset e).length = 46 + e.nameBytes.length := by
  rw [directoryRecord,List.length_append]
  simp only [length_record_cons,length_record_nil,Nat.reduceAdd]

theorem length_lt_append (front rest : Bytes) (nonempty : 0 < front.length) :
    rest.length < (front ++ rest).length := by
  rw [List.length_append]
  omega

/-- The local records are read one after the other, up to where there is none. -/
theorem local_parts (es : List Entry) (fits : ∀ e ∈ es, e.Fits) (rest : Bytes)
    (stop : local? rest = none) :
    Parts local? (es.flatMap localRecord ++ rest) (es.map fun e => { e with mode := 0 }) rest := by
  induction es with
  | nil => exact .nil stop
  | cons e es ih =>
    have hlength := localRecord_length e
    have hfirst := local?_localRecord e (fits e List.mem_cons_self)
      (es.flatMap localRecord ++ rest)
    rw [List.flatMap_cons,List.append_assoc]
    exact .cons hfirst (length_lt_append _ _ (by omega))
      (ih fun x hx => fits x (List.mem_cons_of_mem e hx))

theorem listed_parts (es : List Entry) (fits : ∀ e ∈ es, e.Fits) (offset : Nat) (rest : Bytes)
    (stop : listed? rest = none) :
    Parts listed? (directory offset es ++ rest) (es.map fun e => (e.name,e.checksum,e.mode))
      rest := by
  induction es generalizing offset with
  | nil => exact .nil stop
  | cons e es ih =>
    have hlength := directoryRecord_length offset e
    have hfirst := listed?_directoryRecord offset e (fits e List.mem_cons_self)
      (directory (offset + (localRecord e).length) es ++ rest)
    rw [directory,List.append_assoc]
    exact .cons hfirst (length_lt_append _ _ (by omega))
      (ih (fun x hx => fits x (List.mem_cons_of_mem e hx)) _)

/-- No local record follows the last one: the directory does, or the end record. -/
theorem local?_directory (es : List Entry) (offset count size start : Nat) (comment : Bytes) :
    local? (directory offset es ++ endRecord count size start comment) = none := by
  cases es with
  | nil => exact local?_other (endRecord_begins count size start comment) (by decide)
  | cons e es =>
    rw [directory,List.append_assoc]
    exact local?_other (directoryRecord_begins offset e _) (by decide)

/-- The two records of each entry agree, and give it back. -/
theorem join?_records (es : List Entry) :
    (es.map fun e => (({ e with mode := 0 } : Entry),e.name,e.checksum,e.mode)).mapM
      (fun p => join? p.1 p.2) = some es := by
  have hjoin : ∀ e : Entry, join? { e with mode := 0 } (e.name,e.checksum,e.mode) = some e :=
    fun _ => if_pos ⟨rfl,rfl⟩
  induction es with
  | nil => rfl
  | cons e es ih =>
    rw [List.map_cons,List.mapM_cons,hjoin,ih]
    rfl

/-- An archive is read back as it was written. -/
theorem ofBytes?_toBytes (a : Archive) (fits : ∀ e ∈ a.entries, e.Fits)
    (counted : a.entries.length < 0x10000) (short : a.comment.length < 0x10000) :
    ofBytes? a.toBytes = some a := by
  have hstop := local?_directory a.entries 0 a.entries.length (directory 0 a.entries).length
    (a.entries.flatMap localRecord).length a.comment
  have hlocals := (local_parts a.entries fits _ hstop).many _ (Nat.le_refl _)
  have hlisted := (listed_parts a.entries fits 0 _
    (listed?_other (endRecord_begins a.entries.length (directory 0 a.entries).length
      (a.entries.flatMap localRecord).length a.comment) (by decide))).many _ (Nat.le_refl _)
  have hend := end?_endRecord a.entries.length (directory 0 a.entries).length
    (a.entries.flatMap localRecord).length a.comment counted short
  rw [toBytes,List.append_assoc,ofBytes?]
  simp only [hlocals,hlisted,hend,Option.bind_eq_bind,Option.bind_some,List.length_map,
    List.zip_map',join?_records,ne_eq,not_true,or_self,if_false]
  rfl

end Archive
end GridWorker
