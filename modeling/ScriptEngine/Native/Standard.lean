import ScriptEngine.Registry

-- The standard globals.

namespace ScriptEngine.Registry

def objectProvider : Blueprint where
  name := "Object"
  methods :=
    [("toString", .object .toString), ("hasOwnProperty", .object .hasOwnProperty),
     ("keys", .object .keys)]
  properties := []
  nativeClass := none

def arrayProvider : Blueprint where
  name := "Array"
  methods :=
    [("push", .array .push), ("pop", .array .pop), ("join", .array .join),
     ("indexOf", .array .indexOf), ("contains", .array .contains), ("includes", .array .contains),
     ("isArray", .array .isArray)]
  properties := []
  nativeClass := none

def stringProvider : Blueprint where
  name := "String"
  methods :=
    [("charAt", .string .charAt), ("charCodeAt", .string .charCodeAt),
     ("indexOf", .string .indexOf), ("substring", .string .substring), ("split", .string .split),
     ("trim", .string .trim), ("toUpperCase", .string .toUpperCase),
     ("toLowerCase", .string .toLowerCase)]
  properties := []
  nativeClass := none

def numberClass : Blueprint where
  name := "Number"
  methods :=
    [("isNaN", .number .isNaN), ("isFinite", .number .isFinite), ("isInteger", .number .isInteger)]
  properties :=
    [("MAX_VALUE", .double (Float.ofBits 0x7fefffffffffffff)),
     ("MIN_VALUE", .double (Float.ofBits 0x0010000000000000)),
     ("POSITIVE_INFINITY", .double Double.infinity),
     ("NEGATIVE_INFINITY", .double Double.negativeInfinity),
     ("NaN", .double Double.nan),
     ("MAX_SAFE_INTEGER", .int 9007199254740991),
     ("MIN_SAFE_INTEGER", .int (-9007199254740991)),
     ("EPSILON", .double (Float.ofBits 0x3cb0000000000000))]
  nativeClass := some ⟨"Number", true, .number⟩

def booleanClass : Blueprint where
  name := "Boolean"
  methods := []
  properties := []
  nativeClass := some ⟨"Boolean", true, .boolean⟩

def mathNamespace : Blueprint where
  name := "Math"
  methods :=
    [("abs", .math .abs), ("floor", .math .floor), ("ceil", .math .ceil), ("round", .math .round),
     ("trunc", .math .trunc), ("sign", .math .sign), ("min", .math .min), ("max", .math .max),
     ("sqrt", .math .sqrt), ("pow", .math .pow), ("exp", .math .exp), ("log", .math .log),
     ("sin", .math .sin), ("cos", .math .cos), ("tan", .math .tan)]
  properties :=
    [("E", .double (Float.ofBits 0x4005bf0a8b145769)),
     ("LN10", .double (Float.ofBits 0x40026bb1bbb55516)),
     ("LN2", .double (Float.ofBits 0x3fe62e42fefa39ef)),
     ("PI", .double (Float.ofBits 0x400921fb54442d18)),
     ("SQRT2", .double (Float.ofBits 0x3ff6a09e667f3bcd))]
  nativeClass := some ⟨"Math", false, .plain⟩

def console : Blueprint where
  name := "console"
  methods :=
    [("log", .console .log), ("print", .console .log), ("info", .console .log),
     ("warn", .console .warn), ("error", .console .error)]
  properties := []
  nativeClass := none

def standard : Registry where
  constants :=
    [("Infinity", .double Double.infinity), ("NaN", .double Double.nan), ("undefined", .undefined)]
  methods :=
    [("typeof", .global .typeOf), ("exec", .global .exec), ("eval", .global .eval),
     ("parseInt", .global .parseInt), ("parseFloat", .global .parseFloat),
     ("isNaN", .global .isNaN), ("isFinite", .global .isFinite)]
  objects :=
    [objectProvider, arrayProvider, stringProvider, numberClass, booleanClass, mathNamespace,
     console]

end ScriptEngine.Registry
