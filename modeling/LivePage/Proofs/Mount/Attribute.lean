import LivePage.Proofs.Mount.Static

/-!
# Attributes that follow an observable

The markup of a node and the page element that it becomes decide separately what an observable
attribute shows. `Attribute.written?` and `Attribute.live?` are the two decisions as data; they are the
same exactly where nothing is shown at all, or a text that is not empty under a name that is not
rewritten (`Attribute.written_eq_live_iff`).
-/

namespace LivePage

open LivePage.Text

variable {w : World} {e : PageNode} {c : CellId} {name : String} {call : Respond} {bound : Bindings}
  {el : Element}

namespace Attribute

/-- An observable attribute in the markup of a node: its text under its own name, if there is one that
is not empty. -/
def written? (w : World) (name : String) (c : CellId) : Option (String × String) :=
  ((w.text? (w.current c)).filter fun s => !s.isEmpty).map (name, ·)

/-- An observable attribute on a page element: its text under the name for pages, also if it is empty,
unless the observable holds nothing. -/
def live? (w : World) (name : String) (c : CellId) : Option (String × String) :=
  if (w.current c).isEmpty then none
  else (w.text? (w.current c)).map (pageAttributeName name, ·)

end Attribute

/-- What the markup of a node shows of an observable attribute. -/
theorem writtenAttribute_observable :
    w.writtenAttribute name (.observable c) =
      String.join ((Attribute.written? w name c).toList.map fun a => Page.writtenAttribute a.1 a.2) := by
  have htext : w.attributeText? (.observable c) = w.text? (w.current c) := rfl
  simp only [World.writtenAttribute, Attribute.written?, htext]
  cases w.text? (w.current c) with
  | none => simp
  | some s => by_cases hs : s = "" <;> simp [hs, Option.filter_some, Page.writtenAttribute]

/-- An observable attribute that an element does not have yet comes behind those that it has, and the
element is subscribed. -/
theorem run_bindObserved (hel : (w.slot e).content = .element el)
    (hname : pageAttributeName name ∉ el.attributes.map Prod.fst)
    (hstyle : ∀ s, w.current c ≠ .style s) (htext : (w.text? (w.current c)).isSome) :
    (bindAttribute call e bound name (.observable c)).run.run w =
      .ok (.ok { bound with observables := bound.observables ++ [c] })
        ((w.withContent e (.element
          { el with attributes := el.attributes ++ (Attribute.live? w name c).toList })).subscribed c
            (.attribute e (pageAttributeName name) c)) := by
  refine ok_eget_bind.2 (ok_ebind.2 ⟨⟨⟩, _, ?_, ok_ebind.2 ⟨_, _, ok_lift.2 (run_subscribe ..),
    ok_epure.2 ⟨rfl, rfl⟩⟩⟩)
  obtain ⟨s, hs⟩ := Option.isSome_iff_exists.1 htext
  have hset : (pageStep (e.setAttribute (pageAttributeName name) s)).run.run w = .ok (.ok ⟨⟩)
      (w.withContent e (.element
        { el with attributes := el.attributes ++ [(pageAttributeName name, s)] })) := by
    rw [ok_pageStep, ← Entries.set_of_notMem hname]
    exact run_updateElement hel
  have hremove : (pageStep (e.removeAttribute (pageAttributeName name))).run.run w = .ok (.ok ⟨⟩)
      (w.withContent e (.element el)) := by
    have herase : Entries.erase (pageAttributeName name) el.attributes = el.attributes :=
      List.filter_eq_self.2 fun a ha => by
        simpa using fun h => hname (List.mem_map.2 ⟨a, ha, h⟩)
    have hrun : (e.removeAttribute (pageAttributeName name)).run w = .ok (.ok ()) (w.withContent e
        (.element { el with attributes := Entries.erase (pageAttributeName name) el.attributes })) :=
      run_updateElement hel
    rw [herase] at hrun
    exact ok_pageStep.2 hrun
  unfold PageNode.putAttribute Attribute.live?
  generalize w.current c = v at *
  cases v with
  | empty => simpa [Value.isEmpty] using hremove
  | style style => exact absurd rfl (hstyle style)
  | _ =>
    refine ok_eget_bind.2 ?_
    simpa [hs, Value.isEmpty] using hset

/-- An observable attribute is the same in both forms exactly where it is absent because nothing is
held, or has a text that is not empty and a name that is not rewritten. -/
theorem Attribute.written_eq_live_iff {s : String} (htext : w.text? (w.current c) = some s) :
    Attribute.written? w name c = Attribute.live? w name c ↔
      (w.current c).isEmpty ∨ s ≠ "" ∧ pageAttributeName name = name := by
  unfold Attribute.written? Attribute.live?
  rw [htext, Option.filter_some]
  by_cases hempty : (w.current c).isEmpty
  · have hs : s = "" := by
      cases hv : w.current c with
      | empty =>
        rw [hv] at htext
        exact (Option.some.inj htext).symm
      | _ => simp [hv, Value.isEmpty] at hempty
    simp [hempty, hs]
  · by_cases hs : s = ""
    · simp [hempty, hs]
    · simp [hempty, hs, eq_comm (a := name)]

end LivePage
