import Stencil.Proofs.Resolve.Blind
import Stencil.Proofs.Resolve.Choice
import Stencil.Proofs.Run.Together
import Stencil.Run.Render

namespace Stencil

-- The bytes of a value are its text in the encoding.
def Serializer.IsPlain : Serializer → Prop
  | .custom _ => False
  | _ => True

theorem Getter.keeps_all (getter : Getter) : getter.Keeps fun _ => True := by
  cases getter with
  | custom run => exact fun _ _ _ _ _ _ => trivial
  | _ => trivial

theorem Setter.keeps_all (setter : Setter) : setter.Keeps fun _ => True := by
  cases setter with
  | custom run => exact fun _ _ _ _ _ _ _ => trivial
  | _ => trivial

namespace Resolvers

-- Reading and writing leave serializers alone, and do not depend on them.
theorem accessor_serializers (r : Resolvers) (serializers : Tier Serializer) (cls : Class) :
    { r with serializers }.accessor cls =
      ((r.accessor cls).1, { (r.accessor cls).2 with serializers }) := by
  obtain ⟨getters, setters, tier, accessors⟩ := r
  cases accessors with
  | none => rfl
  | some cache => rfl

theorem chooseGetter_serializers (r : Resolvers) (serializers : Tier Serializer) (cls : Class) :
    { r with serializers }.chooseGetter cls =
      ((r.chooseGetter cls).1, { (r.chooseGetter cls).2 with serializers }) := by
  simp only [chooseGetter, accessor_serializers]
  cases r.getters.find? cls with
  | some getter => rfl
  | none =>
      cases r.getters.findAssignable? cls with
      | some getter => rfl
      | none =>
          obtain ⟨found, kept⟩ := r.accessor cls
          cases found with
          | none => rfl
          | some accessor => rfl

theorem chooseSetter_serializers (r : Resolvers) (serializers : Tier Serializer) (cls : Class) :
    { r with serializers }.chooseSetter cls =
      ((r.chooseSetter cls).1, { (r.chooseSetter cls).2 with serializers }) := by
  simp only [chooseSetter, accessor_serializers]
  cases r.setters.find? cls with
  | some setter => rfl
  | none =>
      cases r.setters.findAssignable? cls with
      | some setter => rfl
      | none =>
          obtain ⟨found, kept⟩ := r.accessor cls
          cases found with
          | none => rfl
          | some accessor => rfl

-- The second manager reads and writes like the first one, and has only plain serializers.
def PlainBeside (r r' : Resolvers) : Prop :=
  ∃ serializers, serializers.All Serializer.IsPlain ∧ r' = { r with serializers }

theorem PlainBeside.interchange : Interchange (fun _ => True) PlainBeside where
  builtin := fun _ _ => trivial
  getter := by
    intro r r' cls hbeside _
    obtain ⟨serializers, hplain, rfl⟩ := hbeside
    rw [chooseGetter_serializers r serializers cls]
    exact ⟨.refl _ _, ⟨serializers, hplain, rfl⟩, Getter.keeps_all _⟩
  setter := by
    intro r r' cls hbeside _
    obtain ⟨serializers, hplain, rfl⟩ := hbeside
    rw [chooseSetter_serializers r serializers cls]
    exact ⟨.refl _ _, ⟨serializers, hplain, rfl⟩, Setter.keeps_all _⟩

theorem PlainBeside.chooseSerializer {r r' : Resolvers} (h : PlainBeside r r') (cls : Class) :
    (r'.chooseSerializer cls).1.IsPlain ∧ PlainBeside r (r'.chooseSerializer cls).2 := by
  obtain ⟨serializers, hplain, rfl⟩ := h
  unfold Resolvers.chooseSerializer
  dsimp only
  cases hfound : serializers.find? cls with
  | some serializer => exact ⟨hplain.find? hfound, serializers, hplain, rfl⟩
  | none =>
      have hserializer : ((serializers.findAssignable? cls).getD .common).IsPlain := by
        cases hassigned : serializers.findAssignable? cls with
        | none => trivial
        | some serializer => exact hplain.findAssignable? hassigned
      exact ⟨hserializer, _, hplain.settle cls hserializer, rfl⟩

-- Only built-in strategies are ever settled for turning values into bytes.
theorem plain_withDefaults (generate : Bool) :
    (withDefaults [] generate).serializers.All Serializer.IsPlain where
  settled := by
    intro entry hentry
    obtain rfl := List.mem_singleton.mp hentry
    trivial
  assignable := by
    intro entry hentry
    cases hentry

theorem plain_look {r : Resolvers} (h : r.serializers.All Serializer.IsPlain) (lookup : Lookup) :
    (r.look lookup).serializers.All Serializer.IsPlain := by
  cases lookup with
  | get cls =>
      have hkept := chooseGetter_serializers r r.serializers cls
      change (r.chooseGetter cls).2.serializers.All Serializer.IsPlain
      rw [hkept]
      exact h
  | set cls =>
      have hkept := chooseSetter_serializers r r.serializers cls
      change (r.chooseSetter cls).2.serializers.All Serializer.IsPlain
      rw [hkept]
      exact h
  | toBytes cls =>
      have hbeside : PlainBeside r r := ⟨r.serializers, h, rfl⟩
      obtain ⟨serializers, hplain, hkept⟩ := (hbeside.chooseSerializer cls).2
      change (r.chooseSerializer cls).2.serializers.All Serializer.IsPlain
      rw [hkept]
      exact hplain

theorem plain_after {r : Resolvers} (h : r.serializers.All Serializer.IsPlain)
    (history : List Lookup) : (r.after history).serializers.All Serializer.IsPlain := by
  induction history generalizing r with
  | nil => exact h
  | cons lookup rest ih => exact ih (plain_look h lookup)

end Resolvers

-- The bytes are the encoded text.
def Sink.Encodes (E : Encoding) (s t : Sink) : Prop :=
  ∃ text, s = .text text ∧ t = .bytes ⟨(E.encode text).toArray, none⟩ E

namespace Run

open WorldM Resolvers
open World (Abreast)

variable {E : Encoding} {S : Resolvers → Resolvers → Prop}

theorem writeText_encoded {known : Class → Prop} (text : String) :
    Lockstep (Abreast known S (Sink.Encodes E)) (writeText text) (writeText text) := by
  intro w u hI
  obtain ⟨buffer, hw, hu⟩ := hI.sink
  have hbytes : (E.encode buffer).toArray ++ (E.encode text).toArray =
      (E.encode (buffer ++ text)).toArray := by
    rw [Encoding.encode_append, List.append_toArray]
  simp only [writeText, onSink, hw, hu, Sink.writeText, Writer.write, hbytes]
  exact .ok ⟨rfl, hI.store, hI.fit, hI.resolvers, buffer ++ text, rfl, rfl⟩

theorem serializeWith_plain {serializer : Serializer} (h : serializer.IsPlain) (v : Value)
    (w : World) :
    serializeWith serializer v E.name w = (.ok (E.encode (v.display w.heap)), w) := by
  have hname := E.ofName_name
  cases serializer with
  | custom run => cases h
  | common =>
      unfold serializeWith
      rw [hname]
      rfl
  | string =>
      unfold serializeWith
      rw [hname]
      rfl

-- Choosing a serializer changes nothing but what is settled.
theorem toBytes_plain {w : World} {v : Value} (hnull : v.isNull = false)
    (hbytes : ∀ bs, v ≠ .bytes bs)
    (hplain : (w.resolvers.chooseSerializer (v.cls w.heap)).1.IsPlain) :
    toBytes v E.name w = (.ok (some (E.encode (v.display w.heap))),
      { w with resolvers := (w.resolvers.chooseSerializer (v.cls w.heap)).2 }) := by
  have hserialized : toBytes v E.name =
      (do return some (← serializeWith (← choose Resolvers.chooseSerializer v) v E.name)) := by
    cases v with
    | null => cases hnull
    | bytes bs => exact absurd rfl (hbytes bs)
    | _ => rfl
  have hchosen : choose Resolvers.chooseSerializer v w =
      (.ok (w.resolvers.chooseSerializer (v.cls w.heap)).1,
        { w with resolvers := (w.resolvers.chooseSerializer (v.cls w.heap)).2 }) := rfl
  rw [hserialized, run_bind_ok hchosen, run_bind_ok (serializeWith_plain hplain v _)]
  rfl

theorem writeValue_of_bytes {w : World} {writer : Writer} (hsink : w.sink = .bytes writer E)
    (v : Value) :
    writeValue v w = (do
      match ← toBytes v E.name with
      | some bytes => WorldM.onSink (·.writeBytes bytes)
      | none => return () : WorldM Fault Unit) w := by
  unfold writeValue
  have hget : (get : WorldM Fault World) w = (.ok w, w) := rfl
  rw [run_bind_ok hget, hsink]
  rfl

-- A value that is no byte string is written as its text, by either way.
theorem encoded_outlet (E : Encoding) :
    Outlet (fun _ => True) PlainBeside (Sink.Encodes E) True fun v => ∀ bs, v ≠ .bytes bs where
  text := writeText_encoded
  value := by
    intro v hshows w u hI
    have hbytes := hshows trivial
    obtain ⟨buffer, hw, hu⟩ := hI.sink
    have hheap : u.heap = w.heap := congrArg Store.heap hI.store
    have htext : w.sink.isByteStream = false := by rw [hw, Sink.isByteStream]
    rw [writeValue_of_text htext, writeValue_of_bytes hu]
    cases hnull : v.isNull with
    | true =>
        have hnone : toBytes v E.name u = (.ok none, u) := by
          cases v with
          | null => rfl
          | _ => cases hnull
        rw [run_bind_ok hnone]
        exact .ok ⟨rfl, hI⟩
    | false =>
        obtain ⟨hplain, hkept⟩ := hI.resolvers.chooseSerializer (v.cls u.heap)
        have hwritten := writeText_encoded (v.display w.heap) w
          { u with resolvers := (u.resolvers.chooseSerializer (v.cls u.heap)).2 }
          ⟨hI.store, hI.fit, hkept, hI.sink⟩
        rw [run_bind_ok (toBytes_plain hnull hbytes hplain), hheap]
        rw [hheap] at hwritten
        simp only [writeText, onSink, hu, Sink.writeText, Sink.writeBytes] at hwritten ⊢
        exact hwritten

end Run

namespace Template

-- No placeholder that is reached shows a byte string.
def ShowsNoBytes (t : Template) (natives : Run.Natives) (fuel origin : Nat) (params : Params)
    (w : World) : Prop :=
  (Run.watch natives (fun v => ∀ bs, v ≠ .bytes bs) fuel).block fuel t.root
    ⟨⟨t.initialSlots params, 0, origin⟩, w⟩

-- With built-in strategies a template comes to the same as text and as bytes of any encoding, also
-- where it fails.
theorem bytes_encode_text (t : Template) (E : Encoding) (natives : Run.Natives)
    (hnatives : natives.Confined fun _ => True) (fuel origin : Nat) (params : Params)
    (store : Store) (generate : Bool) (history : List Lookup)
    (hshown : t.ShowsNoBytes natives fuel origin params
      ⟨store, (Resolvers.withDefaults [] generate).after history, .newText⟩) :
    let shown := t.render natives fuel origin params
      ⟨store, (Resolvers.withDefaults [] generate).after history, .newText⟩
    let written := t.render natives fuel origin params
      ⟨store, (Resolvers.withDefaults [] generate).after history, .bytes .unlimited E⟩
    written.1 = shown.1 ∧
      ∃ text, shown.2.sink = .text text ∧
        written.2.sink = .bytes ⟨(E.encode text).toArray, none⟩ E := by
  intro shown written
  have hplain := Resolvers.plain_after (Resolvers.plain_withDefaults generate) history
  have hempty : E.encode "" = [] := by
    cases E with
    | utf8 => rfl
    | latin1 => rfl
    | ascii => rfl
  have hstart : World.Abreast (fun _ => True) Resolvers.PlainBeside (Sink.Encodes E)
      ⟨store, (Resolvers.withDefaults [] generate).after history, .newText⟩
      ⟨store, (Resolvers.withDefaults [] generate).after history, .bytes .unlimited E⟩ := by
    refine ⟨rfl, fun _ _ => trivial, ⟨_, hplain, rfl⟩, "", rfl, ?_⟩
    rw [hempty]
    rfl
  have htogether := Run.watch_together Resolvers.PlainBeside.interchange hnatives
    (fun v => ∀ bs, v ≠ .bytes bs) fuel
  have hbody := Run.runBody_together htogether (Run.encoded_outlet E) fuel t.root
    ⟨t.initialSlots params, 0, origin⟩
  have hend : Agrees (World.Abreast (fun _ => True) Resolvers.PlainBeside (Sink.Encodes E))
      (Same (World.Abreast (fun _ => True) Resolvers.PlainBeside (Sink.Encodes E))) shown written :=
    Follows.bind_same hbody (fun _ => WorldM.lockstep_pure ()) _ _ ⟨hstart, fun _ => hshown⟩
  generalize shown = end₁ at hend ⊢
  generalize written = end₂ at hend ⊢
  cases hend with
  | ok hsame => exact ⟨congrArg Except.ok hsame.1.symm, hsame.2.sink⟩
  | stopped hI => exact ⟨rfl, hI.sink⟩

-- A sign, then another one that a function shows and gives back, and a quotient that fails.
def signs : Template where
  source := "é$\x7bshow(name)\x7d$\x7b1 / 0\x7d"
  root := [.text "é" ⟨1, 1⟩,
    .placeholder (.call (.var 0 ⟨1, 5⟩) [.var 1 ⟨1, 10⟩] ⟨1, 9⟩) ⟨1, 3⟩,
    .placeholder (.binary .divide (.direct (.int 1) ⟨1, 18⟩) (.direct (.int 0) ⟨1, 22⟩) ⟨1, 20⟩)
      ⟨1, 16⟩]
  frameSize := 2
  params := [("show", 0), ("name", 1)]
  name := none

def showTwice : FunctionDecl where
  arity := 1
  frameSize := 1
  body := [.placeholder (.var 0 ⟨2, 5⟩) ⟨2, 3⟩, .ret (some (.var 0 ⟨2, 20⟩)) ⟨2, 13⟩]
  pos := ⟨2, 1⟩

def signParams : Params := .ofList [("show", .function 1 showTwice), ("name", .str "☃")]

-- A manager that was asked before.
def signWorld (sink : Sink) : World :=
  ⟨.empty, (Resolvers.withDefaults [] true).after [.toBytes .int], sink⟩

theorem signs_show_no_bytes :
    signs.ShowsNoBytes #[nextItem] 3 0 signParams (signWorld .newText) := by
  have hsign : ∀ bs, Value.str "☃" ≠ .bytes bs := by
    intro bs hbs
    cases hbs
  unfold ShowsNoBytes
  simp only [signs, Run.Watch.block, Run.Watch.stmt, Run.Watch.expr, Run.Watch.exprs]
  refine ⟨trivial, .of_ok rfl fun _ => ⟨⟨⟨trivial, .of_ok rfl ?_⟩, .of_ok rfl hsign⟩,
    .of_ok rfl fun _ => ?_⟩⟩
  · -- The call shows what its body shows.
    refine ⟨⟨trivial, .of_ok rfl trivial⟩, .of_ok rfl ?_⟩
    change Run.Watch.block (Run.watch #[nextItem] _ 2) 2 showTwice.body _
    simp only [showTwice, Run.Watch.block, Run.Watch.stmt, Run.Watch.expr]
    exact ⟨⟨trivial, .of_ok rfl hsign⟩, .of_ok rfl fun _ => ⟨trivial, .of_ok rfl fun _ => trivial⟩⟩
  · exact ⟨⟨⟨trivial, .of_ok rfl trivial⟩, .of_error rfl⟩, .of_error rfl⟩

-- The encoding has a byte for the first sign and none for the other one. The quotient fails when
-- both are written.
theorem bytes_encode_text_signs :
    Run.Natives.Confined (fun _ => True) #[nextItem] ∧
      signs.ShowsNoBytes #[nextItem] 3 0 signParams (signWorld .newText) ∧
      (signs.render #[nextItem] 3 0 signParams (signWorld (.bytes .unlimited .latin1))).1 =
        (signs.render #[nextItem] 3 0 signParams (signWorld .newText)).1 ∧
      ∃ text, (signs.render #[nextItem] 3 0 signParams (signWorld .newText)).2.sink = .text text ∧
        (signs.render #[nextItem] 3 0 signParams (signWorld (.bytes .unlimited .latin1))).2.sink =
          .bytes ⟨(Encoding.latin1.encode text).toArray, none⟩ .latin1 := by
  have hnatives : Run.Natives.Confined (fun _ => True) #[nextItem] := by
    intro native hnative
    rw [Array.mem_singleton.mp hnative]
    exact nextItem_confined _
  have hencoded := bytes_encode_text signs .latin1 #[nextItem] hnatives 3 0 signParams .empty true
    [.toBytes .int] signs_show_no_bytes
  exact ⟨hnatives, signs_show_no_bytes, hencoded⟩

end Template

end Stencil
