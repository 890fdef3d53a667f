import Stencil.Proofs.Run.Keeping
import Stencil.Proofs.Run.Waiting

namespace Stencil

variable {R : Realm}

namespace Run

open Resolve WorldM

theorem checkedIndex_clean (index : Int64) (length : Nat) :
    Clean (fun _ => True) (checkedIndex index length) := by
  unfold checkedIndex
  split
  · exact .ok trivial
  · exact .error rfl

theorem readField_within {heap : Heap} (h : heap.Within R) {field : Option Field}
    (hfield : ∀ f, field = some f → f.Plain R.cells) {target v : Value} (htarget : target.Within R)
    (hread : readField heap field target = some v) : v.Within R := by
  cases target with
  | host ref =>
      obtain ⟨object, hobject, hread⟩ := Option.bind_eq_some_iff.mp hread
      obtain ⟨f, hf, hread⟩ := Option.bind_eq_some_iff.mp hread
      exact (hfield f hf).read (h.hosts htarget hobject).2 hread
  | _ => cases hread

theorem scanField?_plain {cells : Cell → Prop} {cls : Class} (h : cls.Plain cells) (key : Value) :
    ∀ f, scanField? cls key = some f → f.Plain cells := by
  intro f hf
  obtain ⟨name, -, hf⟩ := Option.bind_eq_some_iff.mp hf
  exact h f (List.mem_of_find?_eq_some hf)

theorem indexedField?_plain {cells : Cell → Prop} {cls : Class} (h : cls.Plain cells)
    (key : Value) :
    ∀ f, indexedField? cls key = some f → f.Plain cells := by
  intro f hf
  obtain ⟨name, -, hf⟩ := Option.bind_eq_some_iff.mp hf
  exact h f (List.mem_reverse.mp (List.mem_of_find?_eq_some hf))

section Reading

variable {heap : Heap} (h : heap.Within R) {target : Value} (htarget : target.Within R)
  (key : Value)

include h htarget

theorem readList_clean : Clean (Value.Within R) (readList heap target key) := by
  unfold readList
  split
  · rename_i ref index
    refine .bind (checkedIndex_clean _ _) fun i _ => .ok ?_
    rw [List.getD_eq_getElem?_getD]
    cases hitem : (heap.items ref)[i]? with
    | none => trivial
    | some v => exact h.items htarget v (List.mem_of_getElem? hitem)
  · split
    · exact .ok trivial
    · split
      · exact .ok trivial
      · exact .error rfl
  · exact .error rfl

theorem readMap_clean : Clean (Value.Within R) (readMap heap target key) := by
  unfold readMap
  split
  · rename_i ref
    refine .ok ?_
    cases hentry : (heap.entries ref).lookup (mapKey heap key) with
    | none => trivial
    | some v => exact h.entries htarget _ (mem_of_lookup hentry)
  · exact .error rfl

theorem readCommon_clean : Clean (Value.Within R) (readCommon heap target key) := by
  unfold readCommon
  split
  · rename_i v hread
    exact .ok (readField_within h (scanField?_plain (h.cls htarget) key) htarget hread)
  · exact .error rfl

theorem readIndexed_clean {cls : Class} (hcls : cls.Plain R.cells) :
    Clean (Value.Within R) (readIndexed heap cls target key) := by
  unfold readIndexed
  split
  · rename_i v hread
    exact .ok (readField_within h (indexedField?_plain hcls key) htarget hread)
  · exact .error rfl

end Reading

theorem readString_clean (heap : Heap) (target key : Value) :
    Clean (Value.Within R) (readString heap target key) := by
  unfold readString
  split
  · rename_i text index
    refine .bind (checkedIndex_clean _ _) fun i _ => .ok ?_
    cases text.toList[i]? <;> trivial
  · split
    · exact .ok trivial
    · split
      · exact .ok trivial
      · exact .error rfl
  · exact .error rfl

theorem readBytes_clean (heap : Heap) (target key : Value) :
    Clean (Value.Within R) (readBytes heap target key) := by
  unfold readBytes
  split
  · rename_i bs index
    refine .bind (checkedIndex_clean _ _) fun i _ => .ok ?_
    cases bs[i]? <;> trivial
  · split
    · exact .ok trivial
    · exact .error rfl
  · exact .error rfl

theorem readRange_clean (heap : Heap) (target key : Value) :
    Clean (Value.Within R) (readRange heap target key) := by
  unfold readRange
  split
  · split
    · exact .ok trivial
    · split
      · exact .ok trivial
      · split
        · exact .ok trivial
        · exact .error rfl
  · exact .error rfl

-- The iterators of the realm, as far as a run can ask them.
structure Asks (R : Realm) (k : Linkage) : Prop where
  hasNext : ∀ ref, R.cells (.iter ref) → WorldM.Keeps R (fun _ => True) (k.hasNext ref)
  next : ∀ ref, R.cells (.iter ref) → WorldM.Keeps R (Value.Within R) (k.next ref)

variable {k : Linkage}

theorem readStatus_keeps (hk : Asks R k) {ref : Nat} (href : R.cells (.iter ref))
    (status : LoopStatus) : WorldM.Keeps R (Value.Within R) (readStatus k ref status) := by
  refine keeps_heap_bind fun heap _ => ?_
  cases status with
  | hasNext => exact .bind (hk.hasNext ref href) fun _ _ => .pure trivial
  | isLast => exact .bind (hk.hasNext ref href) fun _ _ => .pure trivial
  | _ => exact .pure trivial

theorem readIter_keeps (hk : Asks R k) {target : Value} (htarget : target.Within R)
    (key : Value) : WorldM.Keeps R (Value.Within R) (readIter k target key) := by
  refine keeps_heap_bind fun heap _ => ?_
  split
  · exact readStatus_keeps hk htarget _
  · exact keeps_fail (Fault.within_of_not_nested rfl)

theorem readWith_keeps (hk : Asks R k) {getter : Getter} (hgetter : getter.Plain R.cells)
    {target key : Value} (htarget : target.Within R) (hkey : key.Within R) :
    WorldM.Keeps R (Value.Within R) (readWith k getter target key) := by
  refine keeps_heap_bind fun heap hheap => ?_
  cases getter with
  | common => exact keeps_ofExcept (readCommon_clean hheap htarget key)
  | list =>
      simp only [locking_getList, pure_bind]
      exact keeps_ofExcept (readList_clean hheap htarget key)
  | map =>
      simp only [locking_getMap, pure_bind]
      exact keeps_ofExcept (readMap_clean hheap htarget key)
  | string => exact keeps_ofExcept (readString_clean heap target key)
  | bytes => exact keeps_ofExcept (readBytes_clean heap target key)
  | range => exact keeps_ofExcept (readRange_clean heap target key)
  | iter => exact readIter_keeps hk htarget key
  | fieldTable cls => exact keeps_ofExcept (readIndexed_clean hheap htarget key hgetter)
  | custom run => exact keeps_onStore (hgetter R.places target key htarget hkey)

theorem store_keeps {heap : Option Heap} (h : ∀ written, heap = some written → written.Within R) :
    WorldM.Keeps R (fun _ => True) (store heap) := by
  cases heap with
  | none => exact .pure trivial
  | some heap => exact .bind (keeps_setHeap (h heap rfl)) fun _ _ => .pure trivial

theorem writeField_within {heap written : Heap} (h : heap.Within R) {field : Option Field}
    (hfield : ∀ f, field = some f → f.Plain R.cells) {target v : Value} (htarget : target.Within R)
    (hv : v.Within R) (hwrite : writeField heap field target v = some written) :
    written.Within R := by
  cases target with
  | host ref =>
      obtain ⟨object, hobject, hwrite⟩ := Option.bind_eq_some_iff.mp hwrite
      obtain ⟨write, hsome, hwrite⟩ := Option.bind_eq_some_iff.mp hwrite
      obtain ⟨f, hf, hsome⟩ := Option.bind_eq_some_iff.mp hsome
      obtain ⟨state, hstate, rfl⟩ := Option.map_eq_some_iff.mp hwrite
      exact h.setState ref ((hfield f hf).write hsome (h.hosts htarget hobject).2 hv hstate)
  | _ => cases hwrite

theorem writeList_clean {heap : Heap} (h : heap.Within R) {target key v : Value}
    (htarget : target.Within R) (hv : v.Within R) :
    Clean (fun written => ∀ heap, written = some heap → heap.Within R)
      (writeList heap target key v) := by
  unfold writeList
  split
  · rename_i ref index
    refine .bind (checkedIndex_clean _ _) fun i _ => .ok ?_
    rintro _ ⟨⟩
    refine h.setItems ref fun u hu => ?_
    rcases List.mem_or_eq_of_mem_set hu with hu | rfl
    · exact h.items htarget u hu
    · exact hv
  · exact .ok (by rintro _ ⟨⟩)

theorem writeMap_keeps {heap : Heap} (h : heap.Within R) {target key v : Value}
    (htarget : target.Within R) (hv : v.Within R) :
    WorldM.Keeps R (fun _ => True) (store (writeMap heap target key v)) := by
  refine store_keeps ?_
  cases target with
  | map ref =>
      rintro _ ⟨⟩
      exact h.setEntries ref (Heap.putEntry_within hv fun entry => h.entries htarget entry)
  | _ => rintro _ ⟨⟩

theorem writeWith_keeps {setter : Setter} (hsetter : setter.Plain R.cells) {target key v : Value}
    (htarget : target.Within R) (hkey : key.Within R) (hv : v.Within R) :
    WorldM.Keeps R (fun _ => True) (writeWith setter target key v) := by
  refine keeps_heap_bind fun heap hheap => ?_
  cases setter with
  | common =>
      exact store_keeps fun _ =>
        writeField_within hheap (scanField?_plain (hheap.cls htarget) key) htarget hv
  | list =>
      simp only [locking_setList, pure_bind]
      exact .bind (keeps_ofExcept (writeList_clean hheap htarget hv)) fun _ => store_keeps
  | map =>
      by_cases hwaits : Waits heap target key
      · simp only [locking_setMap_of_waits hwaits]
        exact fun _ hw => .outOfFuel hw
      · simp only [locking_setMap hwaits, pure_bind]
        exact writeMap_keeps hheap htarget hv
  | fieldTable cls =>
      exact store_keeps fun _ =>
        writeField_within hheap (indexedField?_plain hsetter key) htarget hv
  | custom run => exact keeps_onStore (hsetter R.places target key v htarget hkey hv)

theorem ofName_clean (name : String) : Clean (fun _ => True) (Encoding.ofName name) := by
  unfold Encoding.ofName
  split
  all_goals first | exact .ok trivial | exact .error rfl

theorem serializeWith_keeps {serializer : Serializer} (hserializer : serializer.Plain R.cells)
    {v : Value} (hv : v.Within R) (encoding : String) :
    WorldM.Keeps R (fun _ => True) (serializeWith serializer v encoding) := by
  have hcommon : WorldM.Keeps R (fun _ => True) (do
      let encoding ← ofExcept (Encoding.ofName encoding)
      return encoding.encode (v.display (← WorldM.heap))) := by
    exact .bind (keeps_ofExcept (ofName_clean encoding)) fun _ _ =>
      keeps_heap_bind fun _ _ => .pure trivial
  cases serializer with
  | common => exact hcommon
  | string => exact hcommon
  | custom run => exact keeps_onStore (hserializer R.places v encoding hv)

-- The strategy chosen for the class of a value of the realm.
theorem choose_keeps {pick : Resolvers → Class → S × Resolvers} {P : S → Prop}
    (hpick : ∀ {r cls}, r.Of (.plain R.cells) → cls.Plain R.cells →
      P (pick r cls).1 ∧ (pick r cls).2.Of (.plain R.cells)) {v : Value} (hv : v.Within R) :
    WorldM.Keeps R P (choose pick v) := by
  intro w hw
  obtain ⟨hstrategy, hresolvers⟩ := hpick hw.resolvers (hw.heap.cls hv)
  exact .ok hstrategy ⟨hw.heap, hresolvers⟩

theorem getProperty_keeps (hk : Asks R k) {target key : Value} (htarget : target.Within R)
    (hkey : key.Within R) : WorldM.Keeps R (Value.Within R) (getProperty k target key) := by
  unfold getProperty
  split
  · exact .pure trivial
  · exact .bind (choose_keeps (fun hr hcls => hr.chooseGetter hcls) htarget) fun _ hgetter =>
      readWith_keeps hk hgetter htarget hkey

theorem setProperty_keeps {target key v : Value} (htarget : target.Within R) (hkey : key.Within R)
    (hv : v.Within R) : WorldM.Keeps R (fun _ => True) (setProperty target key v) := by
  unfold setProperty
  split
  · exact .pure trivial
  · exact .bind (choose_keeps (fun hr hcls => hr.chooseSetter hcls) htarget) fun _ hsetter =>
      writeWith_keeps hsetter htarget hkey hv

theorem toBytes_keeps {v : Value} (hv : v.Within R) (encoding : String) :
    WorldM.Keeps R (fun _ => True) (toBytes v encoding) := by
  unfold toBytes
  split
  · exact .pure trivial
  · exact .pure trivial
  · refine .bind (choose_keeps (fun hr _ => hr.chooseSerializer _) hv) fun _ hserializer => ?_
    exact .bind (serializeWith_keeps hserializer hv encoding) fun _ _ => .pure trivial

end Run

-- Writers and sinks only refuse what has no room.
theorem Writer.write_within {w : Writer} {bytes : List UInt8} {f : Fault}
    (h : (w.write bytes).1 = .error f) : f.Within R := by
  unfold Writer.write at h
  split at h
  · cases h
  · dsimp only at h
    split at h
    · cases h
    · cases h
      trivial

theorem Sink.writeText_within {s : Sink} {text : String} {f : Fault}
    (h : (s.writeText text).1 = .error f) : f.Within R := by
  cases s with
  | bytes writer encoding => exact Writer.write_within (w := writer) h
  | _ => cases h

theorem Sink.writeBytes_within {s : Sink} {bytes : List UInt8} {f : Fault}
    (h : (s.writeBytes bytes).1 = .error f) : f.Within R := by
  cases s with
  | bytes writer encoding => exact Writer.write_within (w := writer) h
  | _ => cases h

namespace Run

open WorldM

theorem writeText_keeps (text : String) : WorldM.Keeps R (fun _ => True) (writeText text) :=
  keeps_onSink fun _ _ => Sink.writeText_within

theorem writeValue_keeps {v : Value} (hv : v.Within R) :
    WorldM.Keeps R (fun _ => True) (writeValue v) := by
  intro w hw
  change Ends _ _ _ ((if w.sink.isByteStream = true then _ else _ : WorldM Fault Unit) w)
  split
  · refine Keeps.bind (toBytes_keeps hv w.sink.encoding.name) (fun bytes _ => ?_) w hw
    cases bytes with
    | none => exact .pure trivial
    | some bytes => exact keeps_onSink fun _ _ => Sink.writeBytes_within
  · split
    · exact .ok trivial hw
    · exact keeps_heap_bind (fun _ _ => writeText_keeps _) w hw

end Run

namespace Iterator

theorem ofValue_clean {heap : Heap} (h : heap.Within R) {v : Value} (hv : v.Within R) :
    Clean (fun found => ∀ it, found = some it → it.Within R) (ofValue heap v) := by
  have hlisted : ∀ {items : List Value}, (∀ v ∈ items, v.Within R) →
      Clean (fun found => ∀ it, found = some it → it.Within R)
        (.ok (some (ofList items)) : Except Fault (Option Iterator)) := by
    intro items hitems
    refine .ok ?_
    rintro _ ⟨⟩
    exact hitems
  unfold ofValue
  split
  · exact .ok (by rintro _ ⟨⟩)
  · exact hlisted (h.items hv)
  · exact hlisted (List.forall_mem_map.mpr fun _ _ => trivial)
  · exact hlisted (List.forall_mem_map.mpr fun _ _ => trivial)
  · exact hlisted (List.forall_mem_map.mpr fun _ _ => trivial)
  · refine .ok ?_
    rintro _ ⟨⟩
    trivial
  · refine .ok ?_
    rintro _ ⟨⟩
    exact hv
  · split
    · rename_i it hit
      refine .ok ?_
      rintro _ ⟨⟩
      obtain ⟨object, hobject, hit⟩ := Option.bind_eq_some_iff.mp hit
      exact (h.hosts hv hobject).1.iterate (h.hosts hv hobject).2 hit
    · exact .error rfl
  all_goals exact .error rfl

-- Asking ends well and leaves an iterator of the realm behind.
structure Pulled.Within (R : Realm) (P : α → Prop) (p : Pulled α) : Prop where
  ends : Ends (World.Within R) (Fault.Within R) P (p.result, p.world)
  iter : p.iter.Within R

namespace Pulled.Within

variable {P : α → Prop} {it : Iterator} {w : World}

theorem ok {x : α} (hx : P x) (hit : it.Within R) (hw : w.Within R) :
    Within R P ⟨.ok x, it, w⟩ :=
  ⟨.ok hx hw, hit⟩

theorem noSuchElement (hit : it.Within R) (hw : w.Within R) :
    Within R P ⟨.error (.raised .noSuchElement), it, w⟩ :=
  ⟨.raised trivial hw, hit⟩

theorem store {p : Pulled α} (h : p.Within R P) {ref : Nat} (href : R.cells (.iter ref)) :
    (p.store ref).Within R P := by
  have hput : ∀ {w : World}, w.Within R → (w.setHeap (w.heap.setIter ref p.iter)).Within R :=
    fun hw => ⟨hw.heap.setIter ref h.iter, hw.resolvers⟩
  obtain ⟨hends, hiter⟩ := h
  obtain ⟨result, it, w⟩ := p
  refine ⟨?_, href⟩
  cases hends with
  | ok hx hw => exact .ok hx (hput hw)
  | raised hfault hw => exact .raised hfault (hput hw)
  | outOfFuel hw => exact .outOfFuel (hput hw)

theorem mapIter {p : Pulled α} (h : p.Within R P) {f : Iterator → Iterator}
    (hf : ∀ it, it.Within R → (f it).Within R) : (p.mapIter f).Within R P :=
  ⟨h.ends, hf _ h.iter⟩

end Pulled.Within

-- Both ways of asking call each other, so they go through the fuel together.
structure PullsKeep (R : Realm) (ask : Method → Value → WorldM Fault Value) (fuel : Nat) :
    Prop where
  hasNext : ∀ {it w}, it.Within R → w.Within R → (hasNext ask fuel it w).Within R fun _ => True
  next : ∀ {it w}, it.Within R → w.Within R → (next ask fuel it w).Within R (Value.Within R)

variable {ask : Method → Value → WorldM Fault Value}
  (hask : ∀ {method item}, method.Within R → item.Within R →
    WorldM.Keeps R (Value.Within R) (ask method item)) {w : World}

include hask

theorem hasNext_within {fuel : Nat} (ih : PullsKeep R ask fuel) {it : Iterator} (hit : it.Within R)
    (hw : w.Within R) : (hasNext ask (fuel + 1) it w).Within R fun _ => True := by
  cases it with
  | items rest cursor => exact .ok trivial hit hw
  | range next last cursor => exact .ok trivial hit hw
  | shared ref =>
      simp only [hasNext]
      cases hinner : w.heap.iters[ref]? with
      | none => exact .noSuchElement hit hw
      | some inner => exact (ih.hasNext (hw.heap.iters hit hinner) hw).store hit
  | mapped source change =>
      simp only [hasNext]
      exact (ih.hasNext hit.1 hw).mapIter fun _ hsource => ⟨hsource, hit.2⟩
  | filtered source test pending cursor =>
      obtain ⟨hsource, htest, hpending⟩ := hit
      cases pending with
      | some item => exact .ok trivial ⟨hsource, htest, hpending⟩ hw
      | none =>
          have hkept : ∀ {source : Iterator}, source.Within R →
              (filtered source test none cursor).Within R :=
            fun hsource => ⟨hsource, htest, hpending⟩
          simp only [hasNext]
          obtain ⟨hasked, hsource₁⟩ := ih.hasNext hsource hw
          generalize hasNext ask fuel source w = asked at hasked hsource₁ ⊢
          obtain ⟨more, source₁, w₁⟩ := asked
          cases hasked with
          | raised hfault hw₁ => exact ⟨.raised hfault hw₁, hkept hsource₁⟩
          | outOfFuel hw₁ => exact ⟨.outOfFuel hw₁, hkept hsource₁⟩
          | @ok more _ _ hw₁ =>
              cases more with
              | false => exact .ok trivial (hkept hsource₁) hw₁
              | true =>
                  obtain ⟨hread, hsource₂⟩ := ih.next hsource₁ hw₁
                  dsimp only at hread hsource₂ ⊢
                  generalize next ask fuel source₁ w₁ = read at hread hsource₂ ⊢
                  obtain ⟨item, source₂, w₂⟩ := read
                  cases hread with
                  | raised hfault hw₂ => exact ⟨.raised hfault hw₂, hkept hsource₂⟩
                  | outOfFuel hw₂ => exact ⟨.outOfFuel hw₂, hkept hsource₂⟩
                  | @ok item _ hitem hw₂ =>
                      have htested := hask htest hitem w₂ hw₂
                      dsimp only
                      generalize ask test item w₂ = tested at htested ⊢
                      cases htested with
                      | raised hfault hw₃ => exact ⟨.raised hfault hw₃, hkept hsource₂⟩
                      | outOfFuel hw₃ => exact ⟨.outOfFuel hw₃, hkept hsource₂⟩
                      | ok _ hw₃ =>
                          dsimp only
                          split
                          · refine .ok trivial ⟨hsource₂, htest, ?_⟩ hw₃
                            rintro _ ⟨⟩
                            exact hitem
                          · exact ih.hasNext (hkept hsource₂) hw₃

theorem next_within {fuel : Nat} (ih : PullsKeep R ask fuel) {it : Iterator} (hit : it.Within R)
    (hw : w.Within R) : (next ask (fuel + 1) it w).Within R (Value.Within R) := by
  cases it with
  | items rest cursor =>
      cases rest with
      | nil => exact .noSuchElement hit hw
      | cons item rest =>
          obtain ⟨hitem, hrest⟩ := List.forall_mem_cons.mp hit
          exact .ok hitem hrest hw
  | range current last cursor =>
      cases current with
      | none => exact .noSuchElement hit hw
      | some current => exact .ok trivial trivial hw
  | shared ref =>
      simp only [next]
      cases hinner : w.heap.iters[ref]? with
      | none => exact .noSuchElement hit hw
      | some inner => exact (ih.next (hw.heap.iters hit hinner) hw).store hit
  | mapped source change =>
      simp only [next]
      obtain ⟨hread, hsource₁⟩ := ih.next hit.1 hw
      generalize next ask fuel source w = read at hread hsource₁ ⊢
      obtain ⟨item, source₁, w₁⟩ := read
      cases hread with
      | raised hfault hw₁ => exact ⟨.raised hfault hw₁, hsource₁, hit.2⟩
      | outOfFuel hw₁ => exact ⟨.outOfFuel hw₁, hsource₁, hit.2⟩
      | @ok item _ hitem hw₁ => exact ⟨hask hit.2 hitem w₁ hw₁, hsource₁, hit.2⟩
  | filtered source test pending cursor =>
      obtain ⟨hsource, htest, hpending⟩ := hit
      cases pending with
      | some item => exact .ok (hpending item rfl) ⟨hsource, htest, by rintro _ ⟨⟩⟩ hw
      | none =>
          simp only [next]
          have hsame : (Iterator.filtered source test none cursor).Within R :=
            ⟨hsource, htest, hpending⟩
          obtain ⟨hasked, hit₁⟩ := ih.hasNext hsame hw
          generalize hasNext ask fuel (.filtered source test none cursor) w = asked
            at hasked hit₁ ⊢
          obtain ⟨more, it₁, w₁⟩ := asked
          cases hasked with
          | raised hfault hw₁ => exact ⟨.raised hfault hw₁, hit₁⟩
          | outOfFuel hw₁ => exact ⟨.outOfFuel hw₁, hit₁⟩
          | @ok more _ _ hw₁ =>
              dsimp only at hit₁ ⊢
              split
              · rename_i herror
                cases herror
              · exact .ok (hit₁.2.2 _ rfl) ⟨hit₁.1, hit₁.2.1, by rintro _ ⟨⟩⟩ hw₁
              · exact .noSuchElement hit₁ hw₁

theorem pulls_keep (fuel : Nat) : PullsKeep R ask fuel := by
  induction fuel with
  | zero => exact ⟨fun hit hw => ⟨.outOfFuel hw, hit⟩, fun hit hw => ⟨.outOfFuel hw, hit⟩⟩
  | succ fuel ih => exact ⟨hasNext_within hask ih, next_within hask ih⟩

theorem hasNextIn_keeps (fuel : Nat) {ref : Nat} (href : R.cells (.iter ref)) :
    WorldM.Keeps R (fun _ => True) (hasNextIn ask fuel ref) := by
  intro w hw
  have hshared : (Iterator.shared ref).Within R := href
  exact ((pulls_keep hask fuel).hasNext hshared hw).ends

theorem nextIn_keeps (fuel : Nat) {ref : Nat} (href : R.cells (.iter ref)) :
    WorldM.Keeps R (Value.Within R) (nextIn ask fuel ref) := by
  intro w hw
  have hshared : (Iterator.shared ref).Within R := href
  exact ((pulls_keep hask fuel).next hshared hw).ends

end Iterator

end Stencil
