import Uplink.Gateway.Inbound
import Uplink.Gateway.Registration
import Uplink.Gateway.Turn
import Uplink.Proofs.Agenda

/-!
# What may happen to a gateway

A history is a list of events: turns of activities, in any order and at any times, and between them
whatever applications, the platform and the transport do. Agendas settle who goes when; whatever
they settle, the outcome is that of a history. What holds of all histories therefore holds however
turns are taken.
-/

namespace Uplink.Gateway

variable {σ : Type} [Transport σ]

/-- What may happen next. -/
inductive Event (σ : Type) where
  | turn (strand : Strand)
  /-- Time goes on, alarms ring, or turns are planned anew. -/
  | plan (agenda : Agenda Strand)
  /-- A caller asks for something, unless it still waits for what it asked for before. -/
  | ask (caller : Caller) (call : Call)
  /-- The transport changes by itself: its link comes up, or is lost. -/
  | link (transport : σ)
  | configure (options : Options)
  | registerHandler (app : String) (handler : Handler)
  | unregisterHandler (app : String)
  | registerApplication (app : String)
  | unregisterApplication (app : String)
  | registerSubscriber (record : SubscriptionRecord) (subscriber : String)
  | unregisterSubscriber (subscriber : String)
  /-- Listeners come or go. -/
  | listen (connections deliveries : ListenerSet Listener)
  | platform (event : PlatformEvent)
  | arrive (topic : String) (bytes : List UInt8) (qos : Qos) (retained : Bool)
  | acknowledge (id : Nat) (topic : String) (ack : Delivery.Acknowledgement)

/-- The gateway after an event. Options that are refused change nothing. -/
def Event.apply : Event σ → Gateway σ → Gateway σ
  | .turn strand, g => g.turn strand
  | .plan agenda, g => { g with agenda }
  | .ask caller call, g =>
    if g.isDone caller then (g.hold (.call caller) (.begins call)).wake [.call caller] else g
  | .link transport, g => { g with transport }
  | .configure options, g => ((g.configure options).toOption).getD g
  | .registerHandler app handler, g => g.registerHandler app handler
  | .unregisterHandler app, g => (g.unregisterHandler app).2
  | .registerApplication app, g => g.registerApplication app
  | .unregisterApplication app, g => (g.unregisterApplication app).2
  | .registerSubscriber record subscriber, g => g.registerSubscriber record subscriber
  | .unregisterSubscriber subscriber, g => g.unregisterSubscriber subscriber
  | .listen connections deliveries, g =>
    { g with connectionListeners := connections, deliveryListeners := deliveries }
  | .platform event, g => g.platformEvent event
  | .arrive topic bytes qos retained, g => g.arrive topic bytes qos retained
  | .acknowledge id topic ack, g => g.acknowledge id topic ack

def after (g : Gateway σ) (events : List (Event σ)) : Gateway σ :=
  events.foldl (fun g e => e.apply g) g

@[simp] theorem after_nil (g : Gateway σ) : g.after [] = g := rfl

@[simp] theorem after_cons (g : Gateway σ) (e : Event σ) (events : List (Event σ)) :
    g.after (e :: events) = (e.apply g).after events := rfl

theorem after_append (g : Gateway σ) (events more : List (Event σ)) :
    g.after (events ++ more) = (g.after events).after more :=
  List.foldl_append ..

/-- What every event keeps is kept by every history. -/
theorem after_induction {motive : Gateway σ → Prop} {g : Gateway σ} (events : List (Event σ))
    (start : motive g) (step : ∀ g e, motive g → motive (Event.apply e g)) :
    motive (g.after events) := by
  induction events generalizing g with
  | nil => exact start
  | cons e events ih => exact ih (step g e start)

/-! ## Agendas make histories -/

/-- Some history leads from one gateway to another. -/
def Leads (g g' : Gateway σ) : Prop := ∃ events, g' = g.after events

theorem Leads.refl (g : Gateway σ) : Leads g g := ⟨[], rfl⟩

theorem Leads.trans {g g' g'' : Gateway σ} (h : Leads g g') (h' : Leads g' g'') : Leads g g'' := by
  obtain ⟨events, rfl⟩ := h
  obtain ⟨more, rfl⟩ := h'
  exact ⟨events ++ more, (after_append g events more).symm⟩

theorem follows_leads : Timed.Follows (Leads : Gateway σ → Gateway σ → Prop) where
  refl := Leads.refl
  trans := Leads.trans
  plan f g := ⟨[.plan (f g.agenda)], rfl⟩
  turn strand agenda _ := ⟨[.plan agenda, .turn strand], rfl⟩

theorem leads_settle (g : Gateway σ) : Leads g (Timed.settle g) := follows_leads.settle g

theorem leads_pass (ms : Nat) (g : Gateway σ) : Leads g (Timed.pass ms g) := follows_leads.pass ms g

/-- **Whatever a caller asks for, and however long it waits for it, is a history.** -/
theorem leads_ask (g : Gateway σ) (caller : Caller) (call : Call) (h : g.isDone caller = true) :
    Leads g (g.ask caller call) := by
  have hask : Leads g ((g.hold (.call caller) (.begins call)).wake [.call caller]) :=
    ⟨[.ask caller call], by simp only [after_cons, after_nil, Event.apply, if_pos h]⟩
  rw [ask]
  split
  · exact hask
  · -- In the foreground the caller need not be woken.
    have hasleep : Leads ((g.hold (.call caller) (.begins call)).wake [.call caller])
        (g.hold (.call caller) (.begins call)) := ⟨[.plan g.agenda], rfl⟩
    exact (hask.trans hasleep).trans (follows_leads.await (.call caller) _ _)

end Uplink.Gateway
