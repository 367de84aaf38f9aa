import TableQuery.Proofs.Pipeline.Invariants
import TableQuery.Proofs.Pipeline.Reading

/-!
# Runs into a sink that accepts the rows

A sink may accept only rows of which something is known. Where this is known of all rows that a
pipeline brings forth, a run writes the rows that it would collect, and ends as if it collected
them.
-/

namespace TableQuery

variable {σ τ : Type} {sink : Sink σ} {s mid : σ} {front : Array Row} {first more : List Row}
  {ready : σ → Prop} {I : RowInvariant τ} {t last : τ} {p : Pipeline}

/-- A sink that is ready takes rows with the property, and is ready again. -/
structure Sink.Accepts (sink : Sink σ) (P : Row → Prop) (ready : σ → Prop) : Prop where
  writeAll {rows : List Row} {s : σ} (hrows : ∀ row ∈ rows, P row) (hs : ready s) :
    ∃ after, sink.writeAll rows s = (.ok (), after) ∧ ready after
  finish {s : σ} (hs : ready s) : sink.finish s = (.ok (), s)

/-- One outcome has written the rows that the other has collected behind others; apart from that
they are the same. -/
structure Outcome.Writes (sink : Sink σ) (s : σ) (front : Array Row) (out : List Row)
    (written : Outcome σ) (collected : Outcome (Array Row)) : Prop where
  result : written.result = collected.result
  pulled : written.pulled = collected.pulled
  output : sink.writeAll out s = (.ok (), written.output)
  rows : collected.output = front ++ out.toArray

theorem Outcome.Writes.of_error (sink : Sink σ) (s : σ) (front : Array Row) (e : Error)
    (pulled : Nat) : Writes sink s front [] ⟨.error e, pulled, s⟩ ⟨.error e, pulled, front⟩ where
  result := rfl
  pulled := rfl
  output := rfl
  rows := (Array.append_empty ..).symm

theorem Outcome.Writes.append {written : Outcome σ} {collected : Outcome (Array Row)}
    (h : Writes sink mid (front ++ first.toArray) more written collected)
    (hfirst : sink.writeAll first s = (.ok (), mid)) :
    Writes sink s front (first ++ more) (written.after 1) (collected.after 1) where
  result := h.result
  pulled := congrArg (· + 1) h.pulled
  output := Sink.writeAll_append_eq_ok.2 ⟨mid, hfirst, h.output⟩
  rows := by
    rw [← List.append_toArray, ← Array.append_assoc]
    exact h.rows

namespace RowInvariant

variable [PatternEngine]

theorem Kept.drain_writes (hI : I.Kept) (hsink : sink.Accepts (I.row last) ready)
    (hp : I.Chain t p.stages) (hlast : I.last t p.stages = last) (hs : ready s)
    (front : Array Row) :
    ∃ out, (∀ row ∈ out, I.row last row) ∧
      Outcome.Writes sink s front out (p.drain sink s) (p.drain Sink.rows front) := by
  obtain ⟨-, -, hout⟩ := hI.call .finish hp (List.forall_mem_nil _)
  rw [Pipeline.call, hlast] at hout
  rw [Pipeline.drain, Pipeline.drain]
  cases hfinish : p.finish.1 with
  | error e => exact ⟨[], List.forall_mem_nil _, .of_error sink s front e 0⟩
  | ok out =>
      rw [hfinish] at hout
      obtain ⟨after, hwrite, hafter⟩ := hsink.writeAll hout hs
      simp only [hwrite, Sink.writeAll_rows, hsink.finish hafter]
      exact ⟨out, hout, rfl, rfl, hwrite, rfl⟩

/-- A run writes what it would collect. -/
theorem Kept.run_writes (hI : I.Kept) (hsink : sink.Accepts (I.row last) ready)
    {source : List (Except Error Row)} (hsource : ∀ row, .ok row ∈ source → I.row t row)
    (hp : I.Chain t p.stages) (hlast : I.last t p.stages = last) (hs : ready s)
    (front : Array Row) :
    ∃ out, (∀ row ∈ out, I.row last row) ∧
      Outcome.Writes sink s front out (p.run sink source s) (p.run Sink.rows source front) := by
  induction source generalizing p s front with
  | nil => exact hI.drain_writes hsink hp hlast hs front
  | cons item source ih =>
      cases item with
      | error e => exact ⟨[], List.forall_mem_nil _, .of_error sink s front e 1⟩
      | ok row =>
          have hrow : ∀ r ∈ [row], I.row t r :=
            List.forall_mem_singleton.2 (hsource row List.mem_cons_self)
          obtain ⟨hnext, hsame, hout⟩ := hI.call (.take row) hp hrow
          rw [Pipeline.call] at hnext hsame hout
          rw [hlast] at hsame hout
          rw [Pipeline.run, Pipeline.run]
          generalize p.push row = pushed at hnext hsame hout
          obtain ⟨answer, next⟩ := pushed
          cases answer with
          | error e => exact ⟨[], List.forall_mem_nil _, .of_error sink s front e 1⟩
          | ok first =>
              obtain ⟨mid, hwrite, hmid⟩ := hsink.writeAll hout hs
              simp only [hwrite, Sink.writeAll_rows]
              have hrest : ∃ more, (∀ row ∈ more, I.row last row) ∧
                  Outcome.Writes sink mid (front ++ first.toArray) more
                    (if next.isStopped then next.drain sink mid else next.run sink source mid)
                    (if next.isStopped then next.drain Sink.rows (front ++ first.toArray)
                      else next.run Sink.rows source (front ++ first.toArray)) := by
                split
                · exact hI.drain_writes hsink hnext hsame hmid _
                · exact ih (fun row hrow => hsource row (List.mem_cons_of_mem _ hrow)) hnext hsame
                    hmid _
              obtain ⟨more, hmore, hwrites⟩ := hrest
              exact ⟨first ++ more, List.forall_mem_append.2 ⟨hout, hmore⟩, hwrites.append hwrite⟩

end RowInvariant

end TableQuery
