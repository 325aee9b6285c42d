set_option autoImplicit false

namespace MethodPatch.Opcode

def loadConstant : UInt8 := 0x12
def getStatic : UInt8 := 0xb2
def putStatic : UInt8 := 0xb3
def getField : UInt8 := 0xb4
def putField : UInt8 := 0xb5
def invokeVirtual : UInt8 := 0xb6
def invokeSpecial : UInt8 := 0xb7
def invokeStatic : UInt8 := 0xb8
def invokeInterface : UInt8 := 0xb9
def newObject : UInt8 := 0xbb
def newPrimitiveArray : UInt8 := 0xbc
def newReferenceArray : UInt8 := 0xbd
def checkCast : UInt8 := 0xc0
def instanceOf : UInt8 := 0xc1
def newNestedArray : UInt8 := 0xc5

end MethodPatch.Opcode
