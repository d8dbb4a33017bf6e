import ScriptEngine.Eval
import ScriptEngine.Proofs.Reading.Relabelling

-- Heaps without the places that functions were read from. A function keeps its parameters, its body
-- and the text of its source, and nothing that is read off a heap depends on the rest: all reading
-- is the same without the places, and all writing keeps them apart.

namespace ScriptEngine

-- Forgets all offsets and keeps the sources.
def Relabelling.nowhere : Relabelling := ⟨fun _ => 0, id⟩

def Location.nowhere : Location := ⟨"", 0⟩

def Closure.unplaced (closure : Closure) : Closure :=
  ⟨"", closure.function.relabel .nowhere⟩

def ObjectKind.unplaced : ObjectKind → ObjectKind
  | function closure => function closure.unplaced
  | kind => kind

def Object.unplaced (object : Object) : Object :=
  { object with kind := object.kind.unplaced }

def Heap.unplaced (heap : Heap) : Heap :=
  { heap with objects := heap.objects.map Object.unplaced }

-- The place inside of a fault is that of an inner script.
def Fault.unplaced : Fault → Fault
  | nested _ fault => nested .nowhere fault.unplaced
  | fault => fault

def Error.unplaced (error : Error) : Error :=
  ⟨error.fault.unplaced, .nowhere⟩

namespace Function

variable (function : Function) (r : Relabelling)

@[simp] theorem relabel_parameters : (function.relabel r).parameters = function.parameters := by
  cases function
  simp [Function.relabel, parameters]

@[simp] theorem relabel_body :
    (function.relabel r).body = Stmt.relabelAll r function.body := by
  cases function
  simp [Function.relabel, body]

@[simp] theorem relabel_source : (function.relabel r).source = r.source function.source := by
  cases function
  simp [Function.relabel, source]

end Function

-- What has no places is left as it is.

@[simp] theorem Closure.unplaced_unplaced (closure : Closure) :
    closure.unplaced.unplaced = closure.unplaced :=
  congrArg (Closure.mk "") closure.function.relabel_relabel

@[simp] theorem Object.unplaced_unplaced (object : Object) :
    object.unplaced.unplaced = object.unplaced := by
  obtain ⟨kind, properties⟩ := object
  cases kind <;> simp [unplaced, ObjectKind.unplaced]

@[simp] theorem Heap.unplaced_unplaced (heap : Heap) :
    heap.unplaced.unplaced = heap.unplaced := by
  simp [unplaced, Function.comp_def]

namespace Object

variable (object : Object)

@[simp] theorem properties_unplaced : object.unplaced.properties = object.properties := rfl

@[simp] theorem prototype?_unplaced : object.unplaced.prototype? = object.prototype? := rfl

@[simp] theorem closure?_unplaced :
    object.unplaced.closure? = object.closure?.map Closure.unplaced := by
  obtain ⟨kind, properties⟩ := object
  cases kind <;> rfl

@[simp] theorem instance?_unplaced : object.unplaced.instance? = object.instance? := by
  obtain ⟨kind, properties⟩ := object
  cases kind <;> rfl

@[simp] theorem nativeClass?_unplaced : object.unplaced.nativeClass? = object.nativeClass? := by
  obtain ⟨kind, properties⟩ := object
  cases kind <;> rfl

@[simp] theorem set_unplaced (name : String) (value : Value) :
    (object.set name value).unplaced = object.unplaced.set name value := rfl

@[simp] theorem forFunction_unplaced : object.unplaced.forFunction = object.forFunction := rfl

theorem unplaced_forFunction : object.forFunction.unplaced = object.forFunction := by
  unfold forFunction
  split <;> rfl

end Object

namespace Heap

variable (heap : Heap)

@[simp] theorem arrays_unplaced : heap.unplaced.arrays = heap.arrays := rfl

@[simp] theorem array_unplaced (ref : ArrayRef) : heap.unplaced.array ref = heap.array ref := rfl

@[simp] theorem native?_unplaced (ref : NativeRef) :
    heap.unplaced.native? ref = heap.native? ref := rfl

@[simp] theorem size_objects_unplaced :
    heap.unplaced.objects.size = heap.objects.size := Array.size_map

@[simp] theorem object_unplaced (ref : ObjectRef) :
    heap.unplaced.object ref = (heap.object ref).unplaced := by
  unfold object unplaced
  rw [Array.getElem?_map]
  cases heap.objects[ref.index]? <;> rfl

-- Reading.

@[simp] theorem get?_unplaced (ref : ObjectRef) (name : String) :
    heap.unplaced.get? ref name = heap.get? ref name := by
  simp [get?]

@[simp] theorem names_unplaced (ref : ObjectRef) : heap.unplaced.names ref = heap.names ref := by
  simp [names]

@[simp] theorem findAlong_unplaced (name : String) (steps : Nat) (ref : ObjectRef) :
    heap.unplaced.findAlong name steps ref = heap.findAlong name steps ref := by
  induction steps generalizing ref with
  | zero =>
    unfold findAlong
    simp
  | succ steps ih =>
    unfold findAlong
    simp only [get?_unplaced, object_unplaced, Object.prototype?_unplaced]
    cases heap.get? ref name with
    | some value => rfl
    | none =>
      cases (heap.object ref).prototype? with
      | some next => exact ih next
      | none => rfl

@[simp] theorem find?_unplaced (ref : ObjectRef) (name : String) :
    heap.unplaced.find? ref name = heap.find? ref name := by
  simp [find?]

@[simp] theorem isFunction_unplaced (value : Value) :
    heap.unplaced.isFunction value = heap.isFunction value := by
  cases value <;> simp [isFunction]

@[simp] theorem unwrapWithin_unplaced (steps : Nat) (value : Value) :
    heap.unplaced.unwrapWithin steps value = heap.unwrapWithin steps value := by
  induction steps generalizing value with
  | zero => cases value <;> simp [unwrapWithin]
  | succ steps ih => cases value <;> simp [unwrapWithin, ih]

@[simp] theorem unwrap_unplaced (value : Value) :
    heap.unplaced.unwrap value = heap.unwrap value := by
  simp [unwrap]

@[simp] theorem typeTag_unplaced (value : Value) :
    heap.unplaced.typeTag value = heap.typeTag value := by
  cases value <;> simp [typeTag]

@[simp] theorem typeOf_unplaced (value : Value) :
    heap.unplaced.typeOf value = heap.typeOf value := by
  simp [typeOf]

@[simp] theorem toNumber_unplaced (value : Value) :
    heap.unplaced.toNumber value = heap.toNumber value := by
  simp [toNumber]

-- The text of a function is that of its source.
@[simp] theorem plainText_unplaced (value : Value) :
    heap.unplaced.plainText value = heap.plainText value := by
  cases value with
  | object ref =>
    simp only [plainText, object_unplaced]
    rcases heap.object ref with ⟨kind, properties⟩
    cases kind with
    | function closure =>
      simp [Object.unplaced, ObjectKind.unplaced, Closure.unplaced, Relabelling.nowhere]
    | _ => rfl
  | _ => rfl

@[simp] theorem textWithin_unplaced (depth : Nat) (within : List ArrayRef) (value : Value) :
    heap.unplaced.textWithin depth within value = heap.textWithin depth within value := by
  induction depth generalizing within value with
  | zero => rfl
  | succ depth ih => simp [textWithin, ih]

@[simp] theorem toText_unplaced (value : Value) :
    heap.unplaced.toText value = heap.toText value := by
  simp [toText]

@[simp] theorem meetsWithin_unplaced (target : ObjectRef) (steps : Nat) (value : Value) :
    heap.unplaced.meetsWithin target steps value = heap.meetsWithin target steps value := by
  induction steps generalizing value with
  | zero => cases value <;> rfl
  | succ steps ih => cases value <;> simp [meetsWithin, ih]

@[simp] theorem visitsWithin_unplaced (target : ObjectRef) (depth : Nat) (within : List ArrayRef)
    (value : Value) : heap.unplaced.visitsWithin target depth within value =
      heap.visitsWithin target depth within value := by
  induction depth generalizing within value with
  | zero => rfl
  | succ depth ih => simp [visitsWithin, ih]

@[simp] theorem clashes_unplaced (container key : Value) :
    heap.unplaced.clashes container key = heap.clashes container key := by
  cases container <;> simp [clashes, textVisits]

@[simp] theorem joinArray_unplaced (ref : ArrayRef) (separator : String) :
    heap.unplaced.joinArray ref separator = heap.joinArray ref separator := by
  simp [joinArray]

@[simp] theorem element_unplaced (ref : ArrayRef) (index : Int64) :
    heap.unplaced.element ref index = heap.element ref index := rfl

-- Writing.

@[simp] theorem modifyObject_unplaced (ref : ObjectRef) (change : Object → Object)
    (h : ∀ object, (change object).unplaced = change object.unplaced) :
    (heap.modifyObject ref change).unplaced = heap.unplaced.modifyObject ref change := by
  have hobjects : (heap.objects.modify ref.index change).map Object.unplaced =
      (heap.objects.map Object.unplaced).modify ref.index change := by
    refine Array.ext (by simp) fun index hf hs => ?_
    simp only [Array.getElem_map, Array.getElem_modify]
    split <;> simp [h]
  simp [modifyObject, unplaced, hobjects]

@[simp] theorem set_unplaced (ref : ObjectRef) (name : String) (value : Value) :
    (heap.set ref name value).unplaced = heap.unplaced.set ref name value :=
  heap.modifyObject_unplaced ref _ fun _ => rfl

@[simp] theorem modifyArray_unplaced (ref : ArrayRef) (change : Array Value → Array Value) :
    (heap.modifyArray ref change).unplaced = heap.unplaced.modifyArray ref change := rfl

@[simp] theorem addObject_unplaced (object : Object) :
    heap.unplaced.addObject object.unplaced =
      ((heap.addObject object).1, (heap.addObject object).2.unplaced) := by
  simp [addObject, unplaced]

@[simp] theorem addObjectValue_unplaced (object : Object) :
    heap.unplaced.addObjectValue object.unplaced =
      ((heap.addObjectValue object).1, (heap.addObjectValue object).2.unplaced) := by
  simp [addObjectValue]

@[simp] theorem addArrayValue_unplaced (elements : List Value) :
    heap.unplaced.addArrayValue elements =
      ((heap.addArrayValue elements).1, (heap.addArrayValue elements).2.unplaced) := rfl

@[simp] theorem addArray_unplaced (elements : Array Value) :
    heap.unplaced.addArray elements =
      ((heap.addArray elements).1, (heap.addArray elements).2.unplaced) := rfl

theorem setElement_unplaced (ref : ArrayRef) (index : Int64) (value : Value) :
    heap.unplaced.setElement ref index value =
      (heap.setElement ref index value).map Heap.unplaced := by
  unfold setElement
  split <;> rfl

theorem setSubscript_unplaced (container key value : Value) :
    heap.unplaced.setSubscript container key value =
      (heap.setSubscript container key value).map Heap.unplaced := by
  cases container with
  | array ref =>
    simp only [setSubscript]
    cases key.toIndex? with
    | none => rfl
    | some index => exact heap.setElement_unplaced ref index value
  | object ref => simp [setSubscript, Except.map]
  | _ => rfl

theorem setProperty_unplaced (container : Value) (name : String) (value : Value) :
    heap.unplaced.setProperty container name value =
      (heap.setProperty container name value).map Heap.unplaced := by
  cases container with
  | object ref => simp [setProperty, Except.map]
  | _ => rfl

-- What programs read.

@[simp] theorem property_unplaced (target : Value) (name : String) :
    heap.unplaced.property target name = heap.property target name := by
  cases target <;> simp [property]

@[simp] theorem subscript_unplaced (target key : Value) :
    heap.unplaced.subscript target key = heap.subscript target key := by
  cases target <;> simp [subscript]

@[simp] theorem provided?_unplaced (root : ObjectRef) (provider name : String) :
    heap.unplaced.provided? root provider name = heap.provided? root provider name := by
  simp [provided?]

@[simp] theorem method_unplaced {σ : Type} (host : Host σ) (root : ObjectRef) (target : Value)
    (name : String) :
    heap.unplaced.method host root target name = heap.method host root target name := by
  cases target <;> simp [method]

@[simp] theorem nativeOf?_unplaced (value : Value) :
    heap.unplaced.nativeOf? value = heap.nativeOf? value := by
  cases value <;> simp [nativeOf?]

@[simp] theorem closureOf?_unplaced (value : Value) :
    heap.unplaced.closureOf? value = (heap.closureOf? value).map Closure.unplaced := by
  cases value <;> simp [closureOf?]

@[simp] theorem instanceOf?_unplaced (value : Value) :
    heap.unplaced.instanceOf? value = heap.instanceOf? value := by
  cases value <;> simp [instanceOf?]

end Heap

namespace Scope

variable (scope : Scope) (heap : Heap)

@[simp] theorem find?_unplaced (name : String) :
    scope.find? heap.unplaced name = scope.find? heap name := by
  simp [find?]

@[simp] theorem receiver_unplaced : scope.receiver heap.unplaced = scope.receiver heap := by
  simp [receiver]

@[simp] theorem declare_unplaced (name : String) (value : Value) :
    (scope.declare name value heap).unplaced = scope.declare name value heap.unplaced := by
  simp [declare]

@[simp] theorem assign_unplaced (name : String) (value : Value) :
    (scope.assign name value heap).unplaced = scope.assign name value heap.unplaced := by
  simp only [assign, Heap.get?_unplaced]
  split <;> simp

end Scope

theorem Context.path_unplaced (context : Context) (heap : Heap) (path : List String) :
    context.path heap.unplaced path = context.path heap path := by
  have hproperty : heap.unplaced.property = heap.property := by
    funext target name
    exact heap.property_unplaced target name
  cases path <;> simp [Context.path, hproperty]

@[simp] theorem Closure.frame_unplaced (closure : Closure) (receiver : Value)
    (arguments : List Value) :
    closure.unplaced.frame receiver arguments = closure.frame receiver arguments := by
  simp [Closure.frame, Closure.unplaced]

-- Strict equality asks the embedding program about its instances.
section Equality

variable {σ : Type} {host : Host σ}
  (hh : ∀ handler primitive (heap : Heap) other,
    host.sameValue handler primitive heap.unplaced other =
      host.sameValue handler primitive heap other)
include hh

theorem Instance.sameValue_unplaced (heap : Heap) (content : Instance) (other : Value) :
    content.sameValue host heap.unplaced other = content.sameValue host heap other := by
  cases content with
  | host handler className primitive => exact hh handler primitive heap other
  | _ => cases other <;> simp [sameValue]

namespace Heap

variable (heap : Heap)

theorem strictlyEqual_unplaced (a b : Value) :
    heap.unplaced.strictlyEqual host a b = heap.strictlyEqual host a b := by
  have hwrapper (a b : Value) :
      heap.unplaced.wrapperSame host a b = heap.wrapperSame host a b := by
    cases a <;> simp [wrapperSame, Instance.sameValue_unplaced hh]
  simp [strictlyEqual, hwrapper]

theorem applyBinary_unplaced (operator : BinaryOp) (a b : Value) :
    heap.unplaced.applyBinary host operator a b = heap.applyBinary host operator a b := by
  simp [applyBinary, heap.strictlyEqual_unplaced hh]

end Heap

end Equality

-- Native functions.

theorem ObjectFunction.apply_unplaced (function : ObjectFunction) (receiver : Value)
    (arguments : List Value) (heap : Heap) :
    function.apply receiver arguments heap.unplaced =
      ((function.apply receiver arguments heap).1,
        (function.apply receiver arguments heap).2.unplaced) := by
  cases function with
  | toString => simp [ObjectFunction.apply]
  | hasOwnProperty => cases receiver <;> simp [ObjectFunction.apply]
  | keys =>
    have hkeys (value : Value) :
        ObjectFunction.keysOf heap.unplaced value = ObjectFunction.keysOf heap value := by
      cases value <;> simp [keysOf]
    simp [ObjectFunction.apply, hkeys]

theorem StringFunction.apply_unplaced (function : StringFunction) (receiver : Value)
    (arguments : List Value) (heap : Heap) :
    function.apply receiver arguments heap.unplaced =
      ((function.apply receiver arguments heap).1,
        (function.apply receiver arguments heap).2.unplaced) := by
  have hpieces (text : List Char) :
      pieces heap.unplaced text arguments = pieces heap text arguments := by
    unfold pieces
    split <;> simp
  have hposition (value : Value) : heap.unplaced.toPosition value = heap.toPosition value := by
    simp [Heap.toPosition]
  -- The equations of the function are dear, since the case of `substring` has cases of its own.
  unfold StringFunction.apply
  cases function with
  | charCodeAt =>
    simp only [Heap.toText_unplaced, hposition]
    split <;> rfl
  | _ => simp [hposition, hpieces]

theorem MathFunction.apply_unplaced (function : MathFunction) (arguments : List Value)
    (heap : Heap) : function.apply arguments heap.unplaced = function.apply arguments heap := by
  have hoperand (index : Nat) :
      operand heap.unplaced arguments index = operand heap arguments index := by
    simp [operand]
  simp [MathFunction.apply, hoperand]

theorem ArrayFunction.onArray_unplaced {σ : Type} {host : Host σ}
    (hh : ∀ handler primitive (heap : Heap) other,
      host.sameValue handler primitive heap.unplaced other =
        host.sameValue handler primitive heap other)
    (function : ArrayFunction) (ref : ArrayRef) (arguments : List Value) (heap : Heap) :
    function.onArray host ref arguments heap.unplaced =
      ((function.onArray host ref arguments heap).1,
        (function.onArray host ref arguments heap).2.unplaced) := by
  have hposition (value : Value) :
      position? host heap.unplaced ref value = position? host heap ref value := by
    simp [position?, heap.strictlyEqual_unplaced hh]
  cases function with
  | push | pop => rfl
  | indexOf =>
    simp only [onArray, hposition]
    split <;> rfl
  | _ => simp [onArray, hposition]

theorem Maker.wrappedNumber_unplaced (heap : Heap) (arguments : List Value) :
    wrappedNumber heap.unplaced arguments = wrappedNumber heap arguments := by
  unfold wrappedNumber
  split <;> simp

end ScriptEngine
